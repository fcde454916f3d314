import DisplayRaster.Proofs.DisplayList.Inlining
import DisplayRaster.Proofs.DisplayList.VertexRecord

/-!
# Loading vertices

Writing a record and reading it back keeps some of a vertex: the low halves of the coordinates and
the attributes that the layout has (`VertexLayout.read_record`).  The slots are filled in the order
of the loads and never change again, so that after any number of loads they hold the first sixteen
of the vertices that the loads carried (`VertexLoad.slots_lineState`).  A display list of loads and
untextured triangles draws exactly the triangles whose three slots are filled
(`VertexLoad.translate_loads`).
-/

set_option autoImplicit false

namespace DisplayRaster

/-! ## Fields of records -/

namespace Memory

variable {μ : Type} [Memory μ] {m : μ} {addr : UInt32} {bs : List UInt8}

/-- Part of a run of bytes is held at its own place. -/
theorem HoldsBytes.part (h : HoldsBytes m addr bs) {k : Nat} {field : List UInt8}
    (hfield : (bs.drop k).take field.length = field) :
    HoldsBytes m (addr + UInt32.ofNat k) field := by
  refine holdsBytes_iff.2 fun i hi ↦ ?_
  have hlength := congrArg List.length hfield
  rw [List.length_take, List.length_drop] at hlength
  have hbyte := holdsBytes_iff.1 h (k + i) (by omega)
  rw [UInt32.add_assoc, ← UInt32.ofNat_add, hbyte]
  congr 1
  rw [List.getElem_of_eq hfield.symm, List.getElem_take, List.getElem_drop]

end Memory

namespace Rdram

variable {m : Rdram} {addr : UInt32}

/-- Four bytes at an aligned address are a word. -/
theorem read32_of_holdsBytes {value : UInt32} (haligned : addr.toNat % 4 = 0)
    (h : Memory.HoldsBytes m addr (VertexLayout.wordBytes value)) :
    Memory.read32 m addr = .ok value := by
  have hplace {k : Nat} (hk : k < 4) : physical (addr + UInt32.ofNat k) = physical addr + k := by
    refine physical_add ?_
    rw [physical_eq_mod]
    omega
  have hbyte {k : Nat} (hk : k < 4) : physical addr + k < m.size ∧
      m.byte (physical addr + k) = (VertexLayout.wordBytes value)[k] := by
    rw [← hplace hk]
    exact read8_eq_ok (Memory.holdsBytes_iff.1 h k hk)
  have hin : physical addr + 4 ≤ m.size := (hbyte (k := 3) (by decide)).1
  have h₀ := (hbyte (k := 0) (by decide)).2
  rw [Nat.add_zero] at h₀
  refine (read32_of_fits ⟨haligned, hin⟩).trans (congrArg Except.ok ?_)
  rw [h₀, (hbyte (k := 1) (by decide)).2, (hbyte (k := 2) (by decide)).2,
    (hbyte (k := 3) (by decide)).2]
  show BigEndian.word (halfword (BigEndian.highByte (BigEndian.highHalf value))
    (BigEndian.highHalf value).toUInt8)
    (halfword (BigEndian.highByte value.toUInt16) value.toUInt16.toUInt8) = value
  rw [BigEndian.halfword_highByte, BigEndian.halfword_highByte, BigEndian.word_highHalf]

end Rdram

/-! ## What a record keeps -/

/-- The low half of a coordinate, with its sign. -/
def lowHalf (coord : Int32) : Int32 := Int32.ofInt (coord.toInt.bmod (2 ^ 16))

namespace VertexLayout

theorem signedHalf_eq_lowHalf (coord : Int32) :
    signedHalf coord.toUInt32.toUInt16 = lowHalf coord := by
  have hrange : -2 ^ 15 ≤ coord.toInt.bmod (2 ^ 16) ∧ coord.toInt.bmod (2 ^ 16) < 2 ^ 15 := by
    simp only [Int.bmod]
    omega
  apply Int32.toInt_inj.1
  show (BitVec.signExtend 32 (BitVec.setWidth 16 coord.toBitVec)).toInt = _
  have hcoord : coord.toInt = Int.bmod coord.toBitVec.toNat (2 ^ 32) :=
    BitVec.toInt_eq_toNat_bmod coord.toBitVec
  have hlt := coord.toBitVec.isLt
  rw [lowHalf, Int32.toInt_ofInt_of_le (by omega) (by omega),
    BitVec.toInt_signExtend_of_le (by omega), BitVec.toInt_setWidth, hcoord]
  simp only [Int.bmod]
  omega

/-- The layout has a depth. -/
def HasDepth (layout : VertexLayout) : Prop := layout = .texDepth ∨ layout = .texWeightDepth

instance (layout : VertexLayout) : Decidable layout.HasDepth :=
  inferInstanceAs (Decidable (_ ∨ _))

/-- What a record keeps of a vertex. -/
def carried (layout : VertexLayout) (v : Vertex) : Vertex where
  x := lowHalf v.x
  y := lowHalf v.y
  s := if layout = .plain then 0 else lowHalf v.s
  t := if layout = .plain then 0 else lowHalf v.t
  q := if layout = .texWeightDepth then v.q else 0x10000
  z := if layout.HasDepth then v.z else 0

section

variable {m : Rdram} {addr : UInt32} {bs : List UInt8}

/-- **A record is read back as what it keeps of its vertex**, whatever the layout. -/
theorem read_record {layout : VertexLayout} {v : Vertex} (haligned : addr.toNat % 4 = 0)
    (h : Memory.HoldsBytes m addr (layout.record v)) :
    layout.read m addr = .ok (layout.carried v) := by
  have hhalf {k : Nat} (heven : k % 2 = 0) {value : UInt16}
      (hfield : ((layout.record v).drop k).take 2 = halfBytes value) :
      Memory.read16 m (addr + UInt32.ofNat k) = .ok value := by
    refine Rdram.read16_of_holdsBytes ?_ (h.part hfield)
    rw [UInt32.toNat_add, UInt32.toNat_ofNat']
    omega
  have hx : Memory.read16 m (addr + 0) = .ok v.x.toUInt32.toUInt16 :=
    hhalf (k := 0) rfl (by cases layout <;> rfl)
  have hy : Memory.read16 m (addr + 2) = .ok v.y.toUInt32.toUInt16 :=
    hhalf (k := 2) rfl (by cases layout <;> rfl)
  have hs (hl : layout ≠ .plain) : Memory.read16 m (addr + 4) = .ok v.s.toUInt32.toUInt16 :=
    hhalf (k := 4) rfl (by cases layout <;> first | rfl | exact absurd rfl hl)
  have ht (hl : layout ≠ .plain) : Memory.read16 m (addr + 6) = .ok v.t.toUInt32.toUInt16 :=
    hhalf (k := 6) rfl (by cases layout <;> first | rfl | exact absurd rfl hl)
  cases layout with
  | plain =>
    simp only [read, hx, hy]
    show Except.ok (Vertex.position (signedHalf _) (signedHalf _)) = _
    simp only [signedHalf_eq_lowHalf]
    rfl
  | tex =>
    simp only [read, hx, hy, hs (by decide), ht (by decide)]
    show Except.ok (Vertex.textured (signedHalf _) (signedHalf _) (signedHalf _) (signedHalf _)) = _
    simp only [signedHalf_eq_lowHalf]
    rfl
  | texDepth =>
    have hz : Memory.read16 m (addr + 8) = .ok v.z := hhalf (k := 8) rfl rfl
    simp only [read, hx, hy, hs (by decide), ht (by decide), hz]
    show Except.ok { Vertex.textured (signedHalf _) (signedHalf _) (signedHalf _) (signedHalf _)
      with z := v.z } = _
    simp only [signedHalf_eq_lowHalf]
    rfl
  | texWeightDepth =>
    have hq : Memory.read32 m (addr + 8) = .ok v.q := by
      refine Rdram.read32_of_holdsBytes ?_ (h.part (k := 8) rfl)
      rw [UInt32.toNat_add, show (8 : UInt32).toNat = 8 from rfl]
      omega
    have hz : Memory.read16 m (addr + 12) = .ok v.z := hhalf (k := 12) rfl rfl
    simp only [read, hx, hy, hs (by decide), ht (by decide), hq, hz]
    show Except.ok { Vertex.textured (signedHalf _) (signedHalf _) (signedHalf _) (signedHalf _)
      with q := v.q, z := v.z } = _
    simp only [signedHalf_eq_lowHalf]
    rfl

end

end VertexLayout

namespace DisplayList

/-! ## Slots -/

namespace Bytecode

/-- **Loading adds what the records keep**, as far as there are slots. -/
theorem toList_fillSlots {m : Rdram} {layout : VertexLayout} {vertices : List Vertex}
    {addr : UInt32} (haligned : addr.toNat % 4 = 0)
    (hheld : Memory.HoldsBytes m addr (vertices.flatMap layout.record)) {slots : Array Vertex}
    (hslots : slots.size ≤ slotCount) :
    (fillSlots m layout vertices.length addr slots).toList =
      (slots.toList ++ vertices.map layout.carried).take slotCount := by
  induction vertices generalizing addr slots with
  | nil =>
    rw [List.map_nil, List.append_nil, List.take_of_length_le hslots]
    rfl
  | cons v vertices ih =>
    rw [List.length_cons, fillSlots]
    by_cases hfull : slotCount ≤ slots.size
    · rw [if_pos hfull, List.take_append_of_le_length hfull, List.take_of_length_le hslots]
    · obtain ⟨hfirst, hrest⟩ := hheld.append
      rw [VertexLayout.length_record, UInt32.ofNat_toNat] at hrest
      have haligned' : (addr + layout.stride).toNat % 4 = 0 := by
        have hstride : layout.stride.toNat % 4 = 0 := by cases layout <;> rfl
        rw [UInt32.toNat_add]
        omega
      rw [if_neg hfull, VertexLayout.read_record haligned hfirst]
      simp only
      rw [ih haligned' hrest (by rw [Array.size_push]; omega), Array.toList_push, List.map_cons,
        List.append_assoc]
      rfl

/-- Loading leaves filled slots alone. -/
theorem prefix_fillSlots {μ : Type} [Memory μ] (m : μ) (layout : VertexLayout) (count : Nat)
    (addr : UInt32) (slots : Array Vertex) :
    slots.toList <+: (fillSlots m layout count addr slots).toList := by
  induction count generalizing addr slots with
  | zero => exact List.prefix_rfl
  | succ count ih =>
    rw [fillSlots]
    split
    · exact List.prefix_rfl
    · split
      · next v _ =>
        refine List.IsPrefix.trans ?_ (ih _ _)
        rw [Array.toList_push]
        exact List.prefix_append _ _
      · exact List.prefix_rfl

/-- Every operation leaves filled slots alone. -/
theorem prefix_next {μ : Type} [Memory μ] (m : μ) (st : State) (op : Operation) :
    st.vertices.toList <+: (st.next m op).vertices.toList := by
  cases op with
  | vertices layout count addr => exact prefix_fillSlots m layout count _ _
  | _ => exact List.prefix_rfl

/-- **A slot that is filled stays as it is**, whatever comes after. -/
theorem prefix_lineState {μ : Type} [Memory μ] (m : μ) (st : State) (ops : List Operation) :
    st.vertices.toList <+: (lineState m st ops).vertices.toList := by
  induction ops generalizing st with
  | nil => exact List.prefix_rfl
  | cons op ops ih => exact (prefix_next m st op).trans (ih _)

end Bytecode

open Bytecode (State lineCommands lineState slotCount translate)

/-! ## Loads -/

/-- A load of the vertex records at an address. -/
structure VertexLoad where
  layout : VertexLayout
  vertices : List Vertex
  addr : UInt32

namespace VertexLoad

/-- The instruction that loads the records. -/
def instruction (l : VertexLoad) : Instruction :=
  .vertices l.layout (UInt32.ofNat l.vertices.length) l.addr

/-- The records lie in memory at an aligned address, no more of them than an instruction loads. -/
structure RecordsIn (m : Rdram) (l : VertexLoad) : Prop where
  length_pos : 1 ≤ l.vertices.length
  length_le : l.vertices.length ≤ 4096
  aligned : l.addr.toNat % 4 = 0
  held : Memory.HoldsBytes m l.addr (l.layout.records l.vertices).data.toList

/-- The vertices that reach the slots, as far as there are any left. -/
def carried (l : VertexLoad) : List Vertex := l.vertices.map l.layout.carried

/-- What the slots hold after loads: the first of all vertices that the loads carry. -/
def slots (loads : List VertexLoad) : List Vertex := (loads.flatMap carried).take slotCount

variable {m : Rdram} {l : VertexLoad} {loads : List VertexLoad}

theorem operation_instruction (h : l.RecordsIn m) :
    l.instruction.operation = .vertices l.layout l.vertices.length l.addr := by
  have hpos := h.length_pos
  have hle := h.length_le
  have hcount : (UInt32.ofNat l.vertices.length).toNat = l.vertices.length := by
    rw [UInt32.toNat_ofNat']
    omega
  rw [instruction, Instruction.operation_vertices l.layout (by omega) (by omega), hcount]

/-- A load adds what it carries to the slots and leaves the rest of the state alone. -/
theorem next_instruction (h : l.RecordsIn m) {st : State} (hunsegmented : st.Unsegmented)
    (hslots : st.vertices.size ≤ slotCount) :
    st.next m l.instruction.operation =
      { st with vertices := ((st.vertices.toList ++ l.carried).take slotCount).toArray } := by
  have hheld := h.held
  rw [VertexLayout.records] at hheld
  rw [operation_instruction h, State.next, hunsegmented.locate, carried,
    ← Bytecode.toList_fillSlots h.aligned hheld hslots]

/-- **Loads fill the slots one after another** and leave the rest of the state alone. -/
theorem lineState_loads (hloads : ∀ l ∈ loads, l.RecordsIn m) {st : State}
    (hunsegmented : st.Unsegmented) (hslots : st.vertices.size ≤ slotCount) :
    lineState m st (loads.map fun l ↦ l.instruction.operation) =
      { st with vertices :=
          ((st.vertices.toList ++ loads.flatMap carried).take slotCount).toArray } := by
  induction loads generalizing st with
  | nil =>
    rw [List.flatMap_nil, List.append_nil, List.take_of_length_le hslots]
    rfl
  | cons l loads ih =>
    have hcut (first rest : List Vertex) :
        (first.take slotCount ++ rest).take slotCount = (first ++ rest).take slotCount := by
      rw [List.take_append, List.take_append, List.take_take, Nat.min_self, List.length_take]
      congr 2
      omega
    have hnext := next_instruction (hloads l (by simp)) hunsegmented hslots
    have hunsegmented' : (st.next m l.instruction.operation).Unsegmented := by
      rw [hnext]
      exact hunsegmented
    have hslots' : (st.next m l.instruction.operation).vertices.size ≤ slotCount := by
      rw [hnext, List.size_toArray]
      exact List.length_take_le _ _
    rw [List.map_cons, lineState, List.foldl_cons, ← lineState,
      ih (fun l hl ↦ hloads l (by simp [hl])) hunsegmented' hslots', hnext]
    simp only
    rw [hcut, List.append_assoc, List.flatMap_cons]

end VertexLoad

/-! ## Triangles -/

/-- A triangle of loaded vertices. -/
structure SlotTriangle where
  layout : VertexLayout
  slots : Corners UInt8

namespace SlotTriangle

/-- The instruction that draws the triangle. -/
def instruction (t : SlotTriangle) : Instruction :=
  .triangle t.layout t.slots.a t.slots.b t.slots.c

/-- The slots that the instruction names; a slot is a four-bit field. -/
def indices (t : SlotTriangle) : Corners Nat := t.slots.map fun slot ↦ slot.toNat % 16

/-- The commands of the triangle, for what the slots hold. -/
def drawn (filled : List Vertex) (t : SlotTriangle) : List Command :=
  match filled[t.indices.a]?, filled[t.indices.b]?, filled[t.indices.c]? with
  | some a, some b, some c =>
    [if t.layout.HasDepth then .solidTriangleDepth ⟨a, b, c⟩ else .solidTriangle ⟨a, b, c⟩]
  | _, _, _ => []

theorem operation_instruction (t : SlotTriangle) :
    t.instruction.operation = .triangle t.layout t.indices := by
  have hmask (slot : UInt8) :
      Instruction.slotField slot = Instruction.slotField (slot &&& 0xF) := by
    rw [Instruction.slotField, Instruction.slotField, UInt8.and_assoc, UInt8.and_self]
  have hslot (slot : UInt8) : (slot &&& 0xF).toNat = slot.toNat % 16 := by
    rw [UInt8.toNat_and]
    exact Nat.and_two_pow_sub_one_eq_mod _ 4
  have hlt (slot : UInt8) : (slot &&& 0xF).toNat < 16 := by
    rw [hslot]
    omega
  have hmasked : t.instruction = .triangle t.layout (t.slots.a &&& 0xF) (t.slots.b &&& 0xF)
      (t.slots.c &&& 0xF) := by
    rw [instruction, Instruction.triangle, Instruction.triangle, hmask t.slots.a, hmask t.slots.b,
      hmask t.slots.c]
  rw [hmasked, Instruction.operation_triangle _ (hlt _) (hlt _) (hlt _), hslot, hslot, hslot]
  rfl

/-- A triangle without an image is drawn if its slots are filled. -/
theorem commands_instruction (t : SlotTriangle) {st : State} (himage : st.image = none) :
    Bytecode.commands st t.instruction.operation = t.drawn st.vertices.toList := by
  have hcommands (v : Corners Vertex) : Bytecode.triangleCommands st t.layout v =
      [if t.layout.HasDepth then .solidTriangleDepth v else .solidTriangle v] := by
    obtain ⟨layout, slots⟩ := t
    cases layout <;> simp [Bytecode.triangleCommands, himage] <;> rfl
  rw [operation_instruction, Bytecode.commands, drawn, Bytecode.corners?, Array.getElem?_toList,
    Array.getElem?_toList, Array.getElem?_toList]
  cases st.vertices[t.indices.a]? with
  | none => rfl
  | some a =>
    cases st.vertices[t.indices.b]? with
    | none => rfl
    | some b =>
      cases st.vertices[t.indices.c]? with
      | none => rfl
      | some c => exact hcommands ⟨a, b, c⟩

/-- Triangles leave the state alone. -/
theorem lineCommands_triangles {m : Rdram} {st : State} (himage : st.image = none)
    (triangles : List SlotTriangle) :
    lineCommands m st (triangles.map fun t ↦ t.instruction.operation) =
      triangles.flatMap (drawn st.vertices.toList) := by
  induction triangles with
  | nil => rfl
  | cons t triangles ih =>
    have hnext : st.next m t.instruction.operation = st := by
      rw [operation_instruction]
      rfl
    rw [List.map_cons, lineCommands, commands_instruction t himage, hnext, ih, List.flatMap_cons]

end SlotTriangle

/-! ## Lists of loads and triangles -/

namespace VertexLoad

variable {m : Rdram} {loads : List VertexLoad}

/-- The slots after loads at the start of a list. -/
theorem slots_lineState (hloads : ∀ l ∈ loads, l.RecordsIn m) :
    (lineState m .initial (loads.map fun l ↦ l.instruction.operation)).vertices.toList =
      slots loads := by
  rw [lineState_loads hloads State.unsegmented_initial (Nat.zero_le _)]
  rfl

/-- Loads draw nothing. -/
theorem lineCommands_loads (hloads : ∀ l ∈ loads, l.RecordsIn m) (st : State) :
    lineCommands m st (loads.map fun l ↦ l.instruction.operation) = [] := by
  induction loads generalizing st with
  | nil => rfl
  | cons l loads ih =>
    have hfirst : Bytecode.commands st l.instruction.operation = [] := by
      rw [operation_instruction (hloads l (by simp))]
      rfl
    rw [List.map_cons, lineCommands, hfirst, ih fun l hl ↦ hloads l (by simp [hl])]
    rfl

/-- **Vertices come back from their records**, and triangles are drawn of them.  After any of the
loads the slots hold the first sixteen vertices that have been loaded, as far as the records keep
them, and none of them changes later on.  A triangle is drawn if its slots are filled. -/
theorem translate_loads (hloads : ∀ l ∈ loads, l.RecordsIn m) {triangles : List SlotTriangle}
    {addr : UInt32}
    (hheld : Memory.Holds m addr (Instruction.words
      (loads.map instruction ++ triangles.map SlotTriangle.instruction ++ [.endList])))
    {budget : Nat} (hbudget : loads.length + triangles.length < budget) :
    (∀ k, (lineState m .initial
        ((loads.take k).map fun l ↦ l.instruction.operation)).vertices.toList =
      slots (loads.take k)) ∧
    (∀ (st : State) (ops : List Operation) (i : Nat) (v : Vertex),
      st.vertices[i]? = some v → (lineState m st ops).vertices[i]? = some v) ∧
    translate m addr budget =
      triangles.flatMap (SlotTriangle.drawn (slots loads)) ++ [.finish] := by
  refine ⟨fun k ↦ slots_lineState fun l hl ↦ hloads l (List.mem_of_mem_take hl),
    fun st ops i v hv ↦ ?_, ?_⟩
  · rw [← Array.getElem?_toList] at hv ⊢
    obtain ⟨hi, rfl⟩ := List.getElem?_eq_some_iff.1 hv
    exact List.prefix_iff_getElem?.1 (Bytecode.prefix_lineState m st ops) i hi
  · have hstraight : ∀ i ∈ loads.map instruction ++ triangles.map SlotTriangle.instruction,
        i.operation.isStraight = true := by
      intro i hi
      rcases List.mem_append.1 hi with hi | hi
      · obtain ⟨l, hl, rfl⟩ := List.mem_map.1 hi
        rw [operation_instruction (hloads l hl)]
        rfl
      · obtain ⟨t, -, rfl⟩ := List.mem_map.1 hi
        rw [SlotTriangle.operation_instruction]
        rfl
    have himage : (lineState m .initial
        (loads.map fun l ↦ l.instruction.operation)).image = none := by
      rw [lineState_loads hloads State.unsegmented_initial (Nat.zero_le _)]
      rfl
    have hline := SlotTriangle.lineCommands_triangles (m := m) himage triangles
    rw [slots_lineState hloads] at hline
    rw [Bytecode.translate_line hstraight hheld (by simpa using hbudget), List.map_append,
      List.map_map, List.map_map, Bytecode.lineCommands_append]
    refine congrArg (· ++ [Command.finish]) ?_
    exact (congrArg₂ (· ++ ·) (lineCommands_loads hloads _) hline).trans (List.nil_append _)

/-- Two loads in different layouts.  A coordinate changes its sign, and one of the triangles has a
slot that is not filled. -/
theorem translate_loads_mixed :
    let loads : List VertexLoad :=
      [⟨.texWeightDepth, [⟨0x18000, -1, 7, -8, 0x12345678, 9⟩], 64⟩,
        ⟨.tex, [⟨-0x8001, 2, 0x10003, 4, 5, 6⟩], 80⟩]
    let triangles : List SlotTriangle := [⟨.texDepth, ⟨0, 1, 17⟩⟩, ⟨.plain, ⟨0, 1, 2⟩⟩]
    let records : ByteArray :=
      ⟨(VertexLayout.texWeightDepth.record ⟨0x18000, -1, 7, -8, 0x12345678, 9⟩ ++
        VertexLayout.tex.record ⟨-0x8001, 2, 0x10003, 4, 5, 6⟩).toArray⟩
    let m := (Instruction.write ((Rdram.zeroed 88).load 64 records).memory 0
      (loads.map instruction ++ triangles.map SlotTriangle.instruction ++ [.endList])).memory
    let v : Vertex := ⟨-0x8000, -1, 7, -8, 0x12345678, 9⟩
    let w : Vertex := ⟨0x7FFF, 2, 3, 4, 0x10000, 0⟩
    slots loads = [v, w] ∧ translate m 0 5 = [.solidTriangleDepth ⟨v, w, w⟩, .finish] := by
  intro loads triangles records m v w
  have hslots : slots loads = [v, w] := by decide
  have hloads : ∀ l ∈ loads, l.RecordsIn m := by
    intro l hl
    simp only [loads, List.mem_cons, List.not_mem_nil, or_false] at hl
    rcases hl with rfl | rfl
    · exact ⟨by decide, by decide, by decide, by decide⟩
    · exact ⟨by decide, by decide, by decide, by decide⟩
  have hheld : Memory.Holds m 0 (Instruction.words
      (loads.map instruction ++ triangles.map SlotTriangle.instruction ++ [.endList])) := by
    decide
  obtain ⟨-, -, hdrawn⟩ := translate_loads hloads hheld (show 4 < 5 by decide)
  refine ⟨hslots, ?_⟩
  rw [hdrawn, hslots]
  rfl

end VertexLoad

end DisplayList

end DisplayRaster
