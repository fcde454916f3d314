import DisplayRaster.Fragment
import DisplayRaster.Texture.Sample
import DisplayRaster.Triangle.Coverage

/-!
# Drawing triangles

A triangle draws one fragment on every pixel it covers, row by row.  Texture coordinates and depths
are weighted sums over the corners; a solid triangle has one color everywhere.
-/

set_option autoImplicit false

namespace DisplayRaster

variable {μ : Type} [Memory μ]

/-- The interpolated depth, rounded down. -/
def Oriented.depthAt (tri : Oriented) (w : Corners Int) : UInt16 :=
  let sum := TextureCoord.weightedSum w (tri.vertices.map fun v ↦ (v.z.toNat : Int))
  UInt16.ofNat (max 0 (min (sum / tri.area) 0xFFFF)).toNat

/-- The color of a paint at a texture coordinate. -/
@[specialize]
def Paint.colorAt (paint : Paint) (st : RenderState) (m : μ) (coord : Unit → TextureCoord) :
    UInt16 :=
  match paint with
  | .flat color => color
  | .texels source => sample st m source (coord ())

/-- The fragment of a triangle at a pixel, if it covers the pixel. -/
@[specialize]
def Oriented.fragment (tri : Oriented) (st : RenderState) (paint : Paint) (projection : Projection)
    (tested : Bool) (m : μ) (x y : Int) : Option Fragment :=
  let w := tri.weights x y
  if coversValues tri.points w then
    some {
      x, y
      color := paint.colorAt st m fun _ ↦ TextureCoord.ofWeights projection w tri.vertices tri.area
      punchThrough := paint.punchThrough
      depth := if tested then some (tri.depthAt w) else none }
  else none

/-- A triangle has a fragment exactly on the pixels it covers. -/
theorem Oriented.isSome_fragment (tri : Oriented) (st : RenderState) (paint : Paint)
    (projection : Projection) (tested : Bool) (m : μ) (x y : Int) :
    (tri.fragment st paint projection tested m x y).isSome = tri.covers x y := by
  rw [fragment, covers]
  cases coversValues tri.points (tri.weights x y) <;> rfl

/-- Draw a triangle, with a texture or without one.  A draw that carries depth is tested while the
depth test is active. -/
@[specialize]
def drawTriangle (fb : Framebuffer) (st : RenderState) (m : μ) (v : Corners Vertex)
    (source? : Option TexelSource) (projection : Projection) (carriesDepth : Bool) : μ :=
  match Paint.choose st source?, Oriented.ofVertices v with
  | some paint, some tri =>
    let tested := carriesDepth && st.testsDepth
    (tri.region fb).foldRows (fun m x y ↦
      match tri.fragment st paint projection tested m x y with
      | some f => f.write fb st m
      | none => m) m
  | _, _ => m

end DisplayRaster
