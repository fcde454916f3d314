import DisplayRaster.Corners

/-!
# Vertices

A corner of a triangle as display lists and streams give it: a position in pixels, a texture
coordinate in texels, a perspective weight and a depth.
-/

set_option autoImplicit false

namespace DisplayRaster

/-- How texture coordinates vary over a triangle. -/
inductive Projection where
  /-- Linearly in the pixel position. -/
  | affine
  /-- Each corner weighs in by the reciprocal of its perspective weight. -/
  | perspective
  deriving DecidableEq

/-- A corner of a triangle.  A draw ignores the attributes it does not use. -/
structure Vertex where
  x : Int32
  y : Int32
  /-- The horizontal texture coordinate, in texels. -/
  s : Int32
  /-- The vertical texture coordinate, in texels. -/
  t : Int32
  /-- The perspective weight, in sixteen-bit fixed point. -/
  q : UInt32
  /-- The depth; lower is nearer. -/
  z : UInt16
  deriving DecidableEq

namespace Vertex

/-- The perspective weight of a vertex that gives none: one. -/
def unitWeight : UInt32 := 0x10000

/-- A vertex with a texture coordinate. -/
def textured (x y s t : Int32) : Vertex := ⟨x, y, s, t, unitWeight, 0⟩

/-- A vertex with a position only. -/
def position (x y : Int32) : Vertex := textured x y 0 0

end Vertex

end DisplayRaster
