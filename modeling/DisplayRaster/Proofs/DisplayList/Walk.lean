import DisplayRaster.DisplayList.Bytecode
import DisplayRaster.DisplayList.Structured
import DisplayRaster.Proofs.DisplayList.Instruction
import DisplayRaster.Proofs.Memory.Words

/-!
# Translations as recursions over a list

Both translators build their commands with accumulators.  Here each is a plain recursion that gives
the commands of the first entry and goes on with what it leaves behind: `Directive.commandsFrom`
over directives, and `Bytecode.lineCommands` over the operations of a straight line, which is a
display list that neither calls nor branches.
-/

set_option autoImplicit false

namespace DisplayRaster

namespace DisplayList

/-! ## Directives -/

namespace Directive

/-- The commands of the rest of a list. -/
def commandsFrom (ctx : Context) : List Directive → List Command
  | [] => []
  | .finish :: _ => []
  | d :: rest => d.commands ctx ++ commandsFrom (d.describe ctx) rest

theorem commandsFrom_cons {d : Directive} (hd : d ≠ .finish) (ctx : Context)
    (rest : List Directive) :
    commandsFrom ctx (d :: rest) = d.commands ctx ++ commandsFrom (d.describe ctx) rest := by
  cases d with
  | finish => exact absurd rfl hd
  | _ => rfl

theorem reverse_translateOnto (ctx : Context) (done : List Command) (ds : List Directive) :
    (translateOnto ctx done ds).reverse = done.reverse ++ commandsFrom ctx ds := by
  induction ds generalizing ctx done with
  | nil => rw [translateOnto, commandsFrom, List.append_nil]
  | cons d ds ih =>
    by_cases hd : d = .finish
    · subst hd
      rw [translateOnto, commandsFrom, List.append_nil]
    · have hstep : translateOnto ctx done (d :: ds) =
          translateOnto (d.describe ctx) ((d.commands ctx).reverse ++ done) ds := by
        cases d with
        | finish => exact absurd rfl hd
        | _ => rfl
      rw [hstep, ih, commandsFrom_cons hd, List.reverse_append, List.reverse_reverse,
        List.append_assoc]

theorem translate_eq (ds : List Directive) :
    translate ds = commandsFrom .initial ds ++ [.finish] := by
  rw [translate, List.reverse_cons, reverse_translateOnto, List.reverse_nil, List.nil_append]

end Directive

/-! ## Lists in memory -/

namespace Instruction

theorem length_words (is : List Instruction) : (words is).length = 2 * is.length := by
  induction is with
  | nil => rfl
  | cons i is ih =>
    have hcons : words (i :: is) = i.w0 :: i.w1 :: words is := rfl
    rw [hcons, List.length_cons, List.length_cons, List.length_cons, ih]
    omega

/-- A list that was written fits, unless memory is larger than what addresses can tell apart. -/
theorem room_of_write {is : List Instruction} {addr : UInt32} {m m' : Rdram}
    (hwrite : write m addr is = ⟨m', none⟩)
    (hroom : m.size < 2 ^ 29 ∨ 8 * is.length ≤ 2 ^ 29) : 8 * is.length ≤ 2 ^ 29 := by
  rcases hroom with hsize | hroom
  · by_cases hnil : is = []
    · subst hnil
      exact Nat.zero_le _
    · have hlength := length_words is
      have hne : words is ≠ [] := by
        intro h
        rw [h, List.length_nil] at hlength
        exact hnil (List.length_eq_zero_iff.1 (by omega))
      have hin := Rdram.inside_of_writeWords hsize hne hwrite
      omega
  · exact hroom

end Instruction

/-! ## Walks -/

namespace Bytecode

variable {μ : Type} [Memory μ]

/-- What the instruction at an address asks for; none if it cannot be read. -/
def operationAt (m : μ) (addr : UInt32) : Option Operation :=
  (fetch m addr).map Instruction.operation

/-- One step of a walk, by what the instruction asks for. -/
theorem walk_succ {m : μ} {place : Place} {op : Operation}
    (h : operationAt m place.addr = some op) (limit budget : Nat) (st : State)
    (done : Array Command) :
    walk m limit (budget + 1) place st done =
      match place.next limit st op with
      | none => ⟨.finished, done ++ commands st op⟩
      | some next => walk m limit budget next (st.next m op) (done ++ commands st op) := by
  rw [operationAt] at h
  obtain ⟨i, hi, rfl⟩ := Option.map_eq_some_iff.1 h
  have hstep := walk.eq_def m limit (budget + 1) place st done
  simp only [hi] at hstep
  exact hstep

/-- A walk stops where there is no instruction. -/
theorem walk_of_unreadable {m : μ} {place : Place} (h : operationAt m place.addr = none)
    (limit budget : Nat) (st : State) (done : Array Command) :
    walk m limit (budget + 1) place st done = ⟨.fault place.addr, done⟩ := by
  rw [walk, Option.map_eq_none_iff.1 h]

theorem append_commands (done : Array Command) (cs rest : List Command) :
    done ++ cs ++ rest = done ++ (cs ++ rest) := by
  apply Array.toList_inj.1
  simp

end Bytecode

/-! ## Straight lines -/

/-- An operation after which the next instruction follows. -/
def Operation.isStraight : Operation → Bool
  | .endList | .jump .. => false
  | _ => true

namespace Bytecode

variable {μ : Type} [Memory μ]

/-- The commands of the operations of a straight line. -/
def lineCommands (m : μ) (st : State) : List Operation → List Command
  | [] => []
  | op :: ops => commands st op ++ lineCommands m (st.next m op) ops

theorem Place.next_of_isStraight {op : Operation} (h : op.isStraight = true) (limit : Nat)
    (st : State) (place : Place) :
    place.next limit st op = some { place with addr := place.addr + Instruction.size } := by
  cases op with
  | endList | jump => exact absurd h (by simp [Operation.isStraight])
  | _ => rfl

theorem fetch_of_holds {m : μ} {addr : UInt32} {i : Instruction} {is : List Instruction}
    (h : Memory.Holds m addr (Instruction.words (i :: is))) :
    fetch m addr = some i ∧ Memory.Holds m (addr + Instruction.size) (Instruction.words is) := by
  obtain ⟨h₀, h₁, hrest⟩ := h
  refine ⟨?_, ?_⟩
  · simp only [fetch, h₀, h₁]
  · rwa [UInt32.add_assoc] at hrest

/-- **A walk along a straight line gives its commands and finishes at its end.** -/
theorem walk_line {m : μ} (limit : Nat) {is : List Instruction}
    (hstraight : ∀ i ∈ is, i.operation.isStraight = true) {addr : UInt32}
    (hheld : Memory.Holds m addr (Instruction.words (is ++ [.endList]))) {budget : Nat}
    (hb : is.length < budget) (st : State) (done : Array Command) :
    walk m limit budget ⟨addr, #[]⟩ st done =
      ⟨.finished, done ++ lineCommands m st (is.map Instruction.operation)⟩ := by
  induction is generalizing addr budget st done with
  | nil =>
    obtain ⟨budget, rfl⟩ : ∃ k, budget = k + 1 := ⟨budget - 1, by simp at hb; omega⟩
    obtain ⟨hfetch, -⟩ := fetch_of_holds hheld
    simp only [walk, hfetch, Instruction.operation_endList]
    rfl
  | cons i is ih =>
    rw [List.length_cons] at hb
    obtain ⟨budget, rfl⟩ : ∃ k, budget = k + 1 := ⟨budget - 1, by omega⟩
    obtain ⟨hfetch, hrest⟩ := fetch_of_holds hheld
    have hnext := Place.next_of_isStraight (hstraight i (by simp)) limit st ⟨addr, #[]⟩
    simp only [walk, hfetch, hnext]
    rw [ih (fun j hj ↦ hstraight j (by simp [hj])) hrest (by omega)]
    refine congrArg (Outcome.mk .finished) (Array.toList_inj.1 ?_)
    simp [lineCommands]

/-- A state that has no segments. -/
def State.Unsegmented (st : State) : Prop := ∀ id, st.segments.get id = none

theorem State.unsegmented_initial : State.initial.Unsegmented := by
  intro id
  simp [initial, Vector.get]

theorem State.Unsegmented.locate {st : State} (h : st.Unsegmented) (addr : UInt32) :
    st.locate addr = addr := by
  rw [State.locate, h]

/-- The commands of a straight line in memory. -/
theorem translate_line {m : μ} {is : List Instruction}
    (hstraight : ∀ i ∈ is, i.operation.isStraight = true) {addr : UInt32}
    (hheld : Memory.Holds m addr (Instruction.words (is ++ [.endList]))) {budget : Nat}
    (hb : is.length < budget) :
    translate m addr budget =
      lineCommands m .initial (is.map Instruction.operation) ++ [.finish] := by
  rw [translate, run, State.unsegmented_initial.locate, walk_line _ hstraight hheld hb]
  simp

/-! ## Vertex slots -/

/-- The slots with three more vertices. -/
def pushCorners (slots : Array Vertex) (v : Corners Vertex) : Array Vertex :=
  ((slots.push v.a).push v.b).push v.c

@[simp]
theorem size_pushCorners (slots : Array Vertex) (v : Corners Vertex) :
    (pushCorners slots v).size = slots.size + 3 := by
  simp [pushCorners]

/-- Three records go to the next three slots. -/
theorem fillSlots_three {m : μ} {layout : VertexLayout} {addr : UInt32} {v : Corners Vertex}
    (ha : layout.read m addr = .ok v.a) (hb : layout.read m (addr + layout.stride) = .ok v.b)
    (hc : layout.read m (addr + layout.stride + layout.stride) = .ok v.c) {slots : Array Vertex}
    (hslots : slots.size + 3 ≤ slotCount) :
    fillSlots m layout 3 addr slots = pushCorners slots v := by
  rw [fillSlots, if_neg (by omega), ha]
  simp only
  rw [fillSlots, if_neg (by simp; omega), hb]
  simp only
  rw [fillSlots, if_neg (by simp; omega), hc]
  rfl

/-- The corners in the last three slots. -/
theorem corners?_pushCorners (slots : Array Vertex) (v : Corners Vertex) :
    corners? (pushCorners slots v) ⟨slots.size, slots.size + 1, slots.size + 2⟩ = some v := by
  have ha : (pushCorners slots v)[slots.size]? = some v.a := by
    rw [pushCorners, Array.getElem?_push, if_neg (by simp; omega), Array.getElem?_push,
      if_neg (by simp), Array.getElem?_push_size]
  have hb : (pushCorners slots v)[slots.size + 1]? = some v.b := by
    rw [pushCorners, Array.getElem?_push, if_neg (by simp), Array.getElem?_push, if_pos (by simp)]
  have hc : (pushCorners slots v)[slots.size + 2]? = some v.c := by
    rw [pushCorners, Array.getElem?_push, if_pos (by simp)]
  simp only [corners?, ha, hb, hc]
  rfl

end Bytecode

end DisplayList

end DisplayRaster
