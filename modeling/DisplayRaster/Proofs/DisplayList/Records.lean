import DisplayRaster.Proofs.DisplayList.Walk

/-!
# The vertex records that a walk reads

Apart from its own instructions a walk reads one thing from memory, vertex records.  It reads them
one after another until the slots are full or a record cannot be read; `State.records` lists the
places it looks at, the unreadable one included.  What ends up in the slots depends on the records
at these places only.  They may as well be copies at other addresses, or in another memory, as long
as all of them are moved by the same distance (`fillSlots_shift`).
-/

set_option autoImplicit false

namespace DisplayRaster

variable {μ ν : Type} [Memory μ] [Memory ν]

/-- The vertex of the record at an address, if it can be read. -/
def VertexLayout.read? (layout : VertexLayout) (m : μ) (addr : UInt32) : Option Vertex :=
  (layout.read m addr).toOption

namespace DisplayList

namespace Bytecode

/-- A place where a vertex record is looked for. -/
structure RecordPlace where
  layout : VertexLayout
  addr : UInt32

/-- The addresses of the records that are looked at to load `count` of them, with `filled` slots
taken. -/
def recordAddrs (m : μ) (layout : VertexLayout) :
    (count : Nat) → (addr : UInt32) → (filled : Nat) → List UInt32
  | 0, _, _ => []
  | count + 1, addr, filled =>
    if slotCount ≤ filled then []
    else
      match layout.read? m addr with
      | some _ => addr :: recordAddrs m layout count (addr + layout.stride) (filled + 1)
      | none => [addr]

/-- The records that an operation looks at. -/
def State.records (st : State) (m : μ) : Operation → List RecordPlace
  | .vertices layout count addr =>
    (recordAddrs m layout count (st.locate addr) st.vertices.size).map (⟨layout, ·⟩)
  | _ => []

/-- One step of loading, by what the first record is. -/
theorem fillSlots_succ {m : μ} {layout : VertexLayout} {count : Nat} {addr : UInt32}
    {slots : Array Vertex} (hfree : ¬ slotCount ≤ slots.size) :
    fillSlots m layout (count + 1) addr slots =
      match layout.read? m addr with
      | some v => fillSlots m layout count (addr + layout.stride) (slots.push v)
      | none => slots := by
  rw [fillSlots, if_neg hfree, VertexLayout.read?]
  cases layout.read m addr <;> rfl

/-- **Loading depends on the records alone**, wherever they are. -/
theorem fillSlots_shift {m : μ} {m' : ν} {layout : VertexLayout} {count : Nat} {addr : UInt32}
    {slots : Array Vertex} (shift : UInt32)
    (h : ∀ a ∈ recordAddrs m layout count addr slots.size,
      layout.read? m' (a + shift) = layout.read? m a) :
    fillSlots m' layout count (addr + shift) slots = fillSlots m layout count addr slots := by
  induction count generalizing addr slots with
  | zero => rfl
  | succ count ih =>
    by_cases hfull : slotCount ≤ slots.size
    · rw [fillSlots, fillSlots, if_pos hfull, if_pos hfull]
    · rw [recordAddrs, if_neg hfull] at h
      rw [fillSlots_succ hfull, fillSlots_succ hfull]
      cases hread : layout.read? m addr with
      | none =>
        rw [hread] at h
        rw [h addr (by simp), hread]
      | some v =>
        rw [hread] at h
        rw [h addr (by simp), hread]
        have hnext : addr + shift + layout.stride = addr + layout.stride + shift := by
          rw [UInt32.add_assoc, UInt32.add_comm shift, ← UInt32.add_assoc]
        simp only [hnext]
        refine ih fun a ha ↦ h a ?_
        rw [Array.size_push] at ha
        exact List.mem_cons_of_mem _ ha

end Bytecode

end DisplayList

end DisplayRaster
