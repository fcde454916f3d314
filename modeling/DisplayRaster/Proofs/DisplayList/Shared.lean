import DisplayRaster.Proofs.DisplayList.VertexRecord
import DisplayRaster.Proofs.DisplayList.Walk

/-!
# What both kinds of display list can say

Structured display lists and display lists in memory overlap: `Shared` is a step that both can take.
`Shared.directives` spells it as directives and `Shared.instructions` as instructions.  Some steps
are two entries in one spelling or the other.  Instructions have narrower fields than directives, so
not every step has room in them (`Shared.Valid`); if it has, its instructions are read back as the
operations that it stands for (`Shared.map_operation_instructions`).

A triangle goes through vertex records in memory and takes the next three vertex slots; there are
slots for five triangles.
-/

set_option autoImplicit false

namespace DisplayRaster

namespace DisplayList

/-- A step that both kinds of display list can take. -/
inductive Shared where
  | setColorImage (addr width : UInt32)
  | setTextureImage (image : Image)
  | loadTable (addr count : UInt32)
  | setTileSize (corners : Box)
  | textureRectangle (corners : Box)
  | setTile (bank : UInt8) (s t : AddressMode)
  | setPrimColor (color : UInt16)
  | setEnvColor (color : UInt16)
  | setCombine (mode : CombineMode)
  | setFilter (filter : TextureFilter)
  | setBlend (mode : BlendMode)
  | setDepthEnabled (enabled : Bool)
  | setDepthBuffer (buffer : DepthBuffer)
  | clearDepth (value : UInt16)
  | setScissor (rect : Scissor)
  /-- A triangle of the given points, whose records lie at an address. -/
  | fillTriangle (points : Corners (Int32 × Int32)) (records : UInt32)
  deriving DecidableEq

namespace Shared

/-! ## Spellings -/

/-- The step as directives. -/
def directives : Shared → List Directive
  | .setColorImage addr width => [.setColorImage addr width]
  | .setTextureImage image => [.setTextureImage image]
  | .loadTable addr count => [.setTable addr count, .loadTable]
  | .setTileSize corners => [.setTileSize corners]
  | .textureRectangle corners => [.textureRectangle corners]
  | .setTile bank s t => [.setBank bank, .setAddressMode s t]
  | .setPrimColor color => [.setPrimColor color]
  | .setEnvColor color => [.setEnvColor color]
  | .setCombine mode => [.setCombine mode]
  | .setFilter filter => [.setFilter filter]
  | .setBlend mode => [.setBlend mode]
  | .setDepthEnabled enabled => [.setDepthEnabled enabled]
  | .setDepthBuffer buffer => [.setDepthBuffer buffer]
  | .clearDepth value => [.clearDepth value]
  | .setScissor rect => [.setScissor rect]
  | .fillTriangle points _ => [.fillTriangle points]

/-- The corners of a scissor in quarter pixels. -/
def scissorBox (r : Scissor) : Box :=
  ⟨4 * r.x0.toUInt32, 4 * r.y0.toUInt32, 4 * r.x1.toUInt32, 4 * r.y1.toUInt32⟩

/-- The step as instructions, with `slot` the next free vertex slot. -/
def instructions (slot : Nat) : Shared → List Instruction
  | .setColorImage .. => []
  | .setTextureImage image => [.setTextureImage image.format image.width image.addr]
  | .loadTable addr count => [.loadTable count addr]
  | .setTileSize corners => [.setTileSize corners]
  | .textureRectangle corners => [.textureRectangle corners]
  | .setTile bank s t => [.setTile bank s t]
  | .setPrimColor color => [.setPrimColor color]
  | .setEnvColor color => [.setEnvColor color]
  | .setCombine mode => [.setCombine mode]
  | .setFilter filter => [.setFilter filter]
  | .setBlend mode => [.setBlend mode]
  | .setDepthEnabled enabled => [.setDepthEnabled enabled]
  | .setDepthBuffer buffer => [.setDepthImage buffer.width buffer.height buffer.addr]
  | .clearDepth value => [.clearDepth value]
  | .setScissor rect => [.setScissor (scissorBox rect)]
  | .fillTriangle _ records =>
    [.vertices .plain 3 records,
      .triangle .plain (UInt8.ofNat slot) (UInt8.ofNat (slot + 1)) (UInt8.ofNat (slot + 2))]

/-- What the instructions of the step ask for. -/
def operations (slot : Nat) : Shared → List Operation
  | .setColorImage .. => []
  | .setTextureImage image => [.setTextureImage image.format image.width image.addr]
  | .loadTable addr count => [.loadTable count addr]
  | .setTileSize corners => [.setTileSize corners]
  | .textureRectangle corners => [.textureRectangle corners]
  | .setTile bank s t => [.setTile bank s t]
  | .setPrimColor color => [.setPrimColor color]
  | .setEnvColor color => [.setEnvColor color]
  | .setCombine mode => [.setCombine mode]
  | .setFilter filter => [.setFilter filter]
  | .setBlend mode => [.setBlend mode]
  | .setDepthEnabled enabled => [.setDepthEnabled enabled]
  | .setDepthBuffer buffer => [.setDepthImage buffer.width buffer.height buffer.addr]
  | .clearDepth value => [.clearDepth value]
  | .setScissor rect => [.setScissor (scissorBox rect)]
  | .fillTriangle _ records =>
    [.vertices .plain 3 records, .triangle .plain ⟨slot, slot + 1, slot + 2⟩]

/-- Whether the step is a triangle. -/
def isTriangle : Shared → Bool
  | .fillTriangle .. => true
  | _ => false

/-- The vertex slots that a step takes. -/
def slots (step : Shared) : Nat := if step.isTriangle then 3 else 0

/-- The steps as directives, with an end directive or without. -/
def allDirectives (steps : List Shared) (ended : Bool) : List Directive :=
  steps.flatMap directives ++ if ended then [.finish] else []

/-- The steps as instructions, with `slot` the next free vertex slot. -/
def instructionsFrom (slot : Nat) : List Shared → List Instruction
  | [] => []
  | step :: steps => step.instructions slot ++ instructionsFrom (slot + step.slots) steps

/-- What the instructions of the steps ask for. -/
def operationsFrom (slot : Nat) : List Shared → List Operation
  | [] => []
  | step :: steps => step.operations slot ++ operationsFrom (slot + step.slots) steps

/-- The steps as a display list in memory. -/
def allInstructions (steps : List Shared) : List Instruction :=
  instructionsFrom 0 steps ++ [.endList]

/-! ## Room in the fields -/

/-- A coordinate of a scissor that has room in an instruction. -/
def IsScissorCoord (coord : Int32) : Prop := 0 ≤ coord.toInt ∧ coord.toInt ≤ 1023

/-- The fields of the instructions have room for the step. -/
def Valid : Shared → Prop
  | .setTextureImage image =>
    image.format ∈ [TexelFormat.ci4, .ci8, .rgba16] ∧
      1 ≤ image.width.toNat ∧ image.width.toNat ≤ 4096
  | .loadTable _ count => 1 ≤ count.toNat ∧ count.toNat ≤ 256
  | .setTileSize corners | .textureRectangle corners => corners.Narrow
  | .setTile bank _ _ => bank.toNat ≤ 15
  | .setDepthBuffer buffer => buffer.width.toNat ≤ 4095 ∧ buffer.height.toNat ≤ 4095
  | .setScissor rect =>
    IsScissorCoord rect.x0 ∧ IsScissorCoord rect.y0 ∧ IsScissorCoord rect.x1 ∧
      IsScissorCoord rect.y1
  | .fillTriangle points _ =>
    (IsHalf points.a.1 ∧ IsHalf points.a.2) ∧ (IsHalf points.b.1 ∧ IsHalf points.b.2) ∧
      (IsHalf points.c.1 ∧ IsHalf points.c.2)
  | _ => True

/-- The vertices of the points of a triangle. -/
def corners (points : Corners (Int32 × Int32)) : Corners Vertex :=
  points.map fun p ↦ .position p.1 p.2

/-- Memory has the vertex records of the step, at an even address. -/
def RecordsIn (m : Rdram) : Shared → Prop
  | .fillTriangle points records =>
    records.toNat % 2 = 0 ∧
      Memory.HoldsBytes m records ((corners points).toList.flatMap VertexLayout.plain.record)
  | _ => True

/-! ## Reading the fields back -/

theorem toNat_scissorCoord {coord : Int32} (h : IsScissorCoord coord) :
    (4 * coord.toUInt32).toNat = 4 * coord.toUInt32.toNat ∧ coord.toUInt32.toNat ≤ 1023 := by
  obtain ⟨h₁, h₂⟩ := h
  have hcoord : coord.toInt = Int.bmod coord.toUInt32.toNat (2 ^ 32) :=
    BitVec.toInt_eq_toNat_bmod coord.toBitVec
  have hlt := coord.toUInt32.toNat_lt
  have h4 : (4 : UInt32).toNat = 4 := rfl
  have hle : coord.toUInt32.toNat ≤ 1023 := by
    rw [hcoord] at h₁ h₂
    simp only [Int.bmod] at h₁ h₂
    omega
  refine ⟨?_, hle⟩
  rw [UInt32.toNat_mul, h4, Nat.mod_eq_of_lt (by omega)]

theorem narrow_scissorBox {r : Scissor} (h : (setScissor r).Valid) : (scissorBox r).Narrow := by
  obtain ⟨hx0, hy0, hx1, hy1⟩ := h
  have hnarrow {coord : Int32} (h : IsScissorCoord coord) :
      (4 * coord.toUInt32).toNat < 2 ^ 12 := by
    have := toNat_scissorCoord h
    omega
  exact ⟨hnarrow hx0, hnarrow hy0, hnarrow hx1, hnarrow hy1⟩

theorem quarterPixel_four_mul {coord : Int32} (h : IsScissorCoord coord) :
    quarterPixel (4 * coord.toUInt32) = coord := by
  obtain ⟨h₁, h₂⟩ := toNat_scissorCoord h
  have hshift : (4 * coord.toUInt32) >>> 2 = coord.toUInt32 := by
    apply UInt32.toNat_inj.1
    rw [Field.toNat_shiftRight (n := 2) rfl (by omega), h₁]
    omega
  rw [quarterPixel, hshift, Int32.toInt32_toUInt32]

/-- The formats of the instruction that names an image. -/
theorem texelFormat?_texelSize {format : TexelFormat}
    (h : format ∈ [TexelFormat.ci4, .ci8, .rgba16]) :
    Instruction.texelFormat? (Instruction.texelSize format) = some format := by
  simp only [List.mem_cons, List.not_mem_nil, or_false] at h
  rcases h with rfl | rfl | rfl <;> rfl

theorem operation_slots {slot : Nat} (h : slot + 3 ≤ Bytecode.slotCount) :
    Instruction.operation (.triangle .plain (UInt8.ofNat slot) (UInt8.ofNat (slot + 1))
      (UInt8.ofNat (slot + 2))) = .triangle .plain ⟨slot, slot + 1, slot + 2⟩ := by
  have hsixteen : Bytecode.slotCount = 16 := rfl
  have hslot {k : Nat} (hk : k < 16) : (UInt8.ofNat k).toNat = k :=
    UInt8.toNat_ofNat_of_lt' (Nat.lt_trans hk (by decide))
  have ha := hslot (show slot < 16 by omega)
  have hb := hslot (show slot + 1 < 16 by omega)
  have hc := hslot (show slot + 2 < 16 by omega)
  rw [Instruction.operation_triangle .plain (by rw [ha]; omega) (by rw [hb]; omega)
    (by rw [hc]; omega), ha, hb, hc]

/-- **The instructions of a step are read back as its operations.** -/
theorem map_operation_instructions {step : Shared} (h : step.Valid) {slot : Nat}
    (hslot : slot + step.slots ≤ Bytecode.slotCount) :
    (step.instructions slot).map Instruction.operation = step.operations slot := by
  have hone {i : Instruction} {op : Operation} (hi : i.operation = op) :
      [i].map Instruction.operation = [op] := by rw [List.map_cons, hi, List.map_nil]
  cases step with
  | setColorImage addr width => rfl
  | setTextureImage image =>
    exact hone (Instruction.operation_setTextureImage (texelFormat?_texelSize h.1) h.2.1 h.2.2 _)
  | loadTable addr count => exact hone (Instruction.operation_loadTable h.1 h.2 addr)
  | setTileSize corners => exact hone (Instruction.operation_setTileSize h)
  | textureRectangle corners => exact hone (Instruction.operation_textureRectangle h)
  | setTile bank s t => exact hone (Instruction.operation_setTile (Nat.lt_succ_of_le h) s t)
  | setPrimColor color => exact hone (Instruction.operation_setPrimColor color)
  | setEnvColor color => exact hone (Instruction.operation_setEnvColor color)
  | setCombine mode => exact hone (Instruction.operation_setCombine mode)
  | setFilter filter => exact hone (Instruction.operation_setFilter filter)
  | setBlend mode => exact hone (Instruction.operation_setBlend mode)
  | setDepthEnabled enabled => exact hone (Instruction.operation_setDepthEnabled enabled)
  | setDepthBuffer buffer =>
    exact hone (Instruction.operation_setDepthImage (Nat.lt_succ_of_le h.1)
      (Nat.lt_succ_of_le h.2) buffer.addr)
  | clearDepth value => exact hone (Instruction.operation_clearDepth value)
  | setScissor rect => exact hone (Instruction.operation_setScissor (narrow_scissorBox h))
  | fillTriangle points records =>
    have hvertices : Instruction.operation (.vertices .plain 3 records) =
        .vertices .plain 3 records :=
      Instruction.operation_vertices .plain (by decide) (by decide) records
    rw [instructions, List.map_cons, hvertices, List.map_cons, operation_slots hslot]
    rfl

theorem isStraight_of_mem_operations {step : Shared} {slot : Nat} {op : Operation}
    (h : op ∈ step.operations slot) : op.isStraight = true := by
  cases step with
  | setColorImage addr width => cases h
  | fillTriangle points records =>
    rcases List.mem_cons.1 h with rfl | h
    · rfl
    · rw [List.mem_singleton.1 h]
      rfl
  | _ =>
    rw [List.mem_singleton.1 h]
    rfl

theorem countP_isTriangle_cons (step : Shared) (steps : List Shared) :
    3 * (step :: steps).countP isTriangle = step.slots + 3 * steps.countP isTriangle := by
  rw [List.countP_cons, slots]
  split <;> omega

/-- The operations of a list of steps. -/
theorem map_operation_instructionsFrom {steps : List Shared} (hvalid : ∀ step ∈ steps, step.Valid)
    {slot : Nat} (hslot : slot + 3 * steps.countP isTriangle ≤ Bytecode.slotCount) :
    (instructionsFrom slot steps).map Instruction.operation = operationsFrom slot steps := by
  induction steps generalizing slot with
  | nil => rfl
  | cons step steps ih =>
    rw [countP_isTriangle_cons] at hslot
    rw [instructionsFrom, operationsFrom, List.map_append,
      map_operation_instructions (hvalid step (by simp)) (by omega),
      ih (fun s hs ↦ hvalid s (by simp [hs])) (by omega)]

theorem isStraight_of_mem_operationsFrom {steps : List Shared} {slot : Nat} {op : Operation}
    (h : op ∈ operationsFrom slot steps) : op.isStraight = true := by
  induction steps generalizing slot with
  | nil => cases h
  | cons step steps ih =>
    rcases List.mem_append.1 h with h | h
    · exact isStraight_of_mem_operations h
    · exact ih h

end Shared

end DisplayList

end DisplayRaster
