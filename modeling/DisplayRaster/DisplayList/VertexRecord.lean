import DisplayRaster.Memory.Basic
import DisplayRaster.Vertex

/-!
# Vertex records

Vertices lie in memory as records of big-endian fields: sixteen-bit positions, then, as far as the
layout has them, texture coordinates, the perspective weight and the depth.  `VertexLayout.record`
writes a vertex and `VertexLayout.read` reads one; attributes that the layout lacks have their
defaults.
-/

set_option autoImplicit false

namespace DisplayRaster

/-- Which attributes a record has. -/
inductive VertexLayout where
  /-- A position. -/
  | plain
  /-- A position and a texture coordinate. -/
  | tex
  /-- A position, a texture coordinate, a depth and padding. -/
  | texDepth
  /-- A position, a texture coordinate, a perspective weight, a depth and padding. -/
  | texWeightDepth
  deriving DecidableEq

namespace VertexLayout

/-- The size of a record in bytes. -/
def stride : VertexLayout → UInt32
  | .plain => 4
  | .tex => 8
  | .texDepth => 12
  | .texWeightDepth => 16

/-! ## Writing -/

/-- A halfword in big-endian order. -/
def halfBytes (value : UInt16) : List UInt8 := [BigEndian.highByte value, value.toUInt8]

/-- A word in big-endian order. -/
def wordBytes (value : UInt32) : List UInt8 :=
  halfBytes (BigEndian.highHalf value) ++ halfBytes value.toUInt16

/-- The low half of a coordinate in big-endian order. -/
def coordBytes (value : Int32) : List UInt8 := halfBytes value.toUInt32.toUInt16

/-- The record of a vertex.  Coordinates keep their low halves. -/
def record (layout : VertexLayout) (v : Vertex) : List UInt8 :=
  let position := coordBytes v.x ++ coordBytes v.y
  let texture := coordBytes v.s ++ coordBytes v.t
  let depth := halfBytes v.z ++ [0, 0]
  match layout with
  | .plain => position
  | .tex => position ++ texture
  | .texDepth => position ++ texture ++ depth
  | .texWeightDepth => position ++ texture ++ wordBytes v.q ++ depth

@[simp]
theorem length_record (layout : VertexLayout) (v : Vertex) :
    (layout.record v).length = layout.stride.toNat := by
  cases layout <;> rfl

/-- The records of a list of vertices. -/
def records (layout : VertexLayout) (vertices : List Vertex) : ByteArray :=
  ⟨(vertices.flatMap layout.record).toArray⟩

/-! ## Reading -/

variable {μ : Type} [Memory μ]

/-- A halfword as a signed coordinate. -/
def signedHalf (value : UInt16) : Int32 := value.toInt16.toInt32

/-- The vertex of the record at an address; none if a field cannot be read. -/
def read (layout : VertexLayout) (m : μ) (addr : UInt32) : Except MemoryFault Vertex := do
  let coord (offset : UInt32) := return signedHalf (← Memory.read16 m (addr + offset))
  let x ← coord 0
  let y ← coord 2
  match layout with
  | .plain => return .position x y
  | .tex => return .textured x y (← coord 4) (← coord 6)
  | .texDepth =>
    let v := Vertex.textured x y (← coord 4) (← coord 6)
    return { v with z := ← Memory.read16 m (addr + 8) }
  | .texWeightDepth =>
    let v := Vertex.textured x y (← coord 4) (← coord 6)
    return { v with q := ← Memory.read32 m (addr + 8), z := ← Memory.read16 m (addr + 12) }

end VertexLayout

end DisplayRaster
