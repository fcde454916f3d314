import DisplayRaster.Proofs.DisplayList.Records

/-!
# Calls behave as inlining

A `CallTree` is a display list together with the lists it calls, each in the place of its call.  It
is laid out in memory (`CallTree.LaidOut`) if its instructions are where a walk finds them; an
operand is located with the segments that are set at that point, and a called list may set segments
for its caller.

A walk along such a list gives the commands of the operations with the called lists in place of the
calls, as if there were no calls at all (`walk_callTree`).  A call at the end of a list may as well
be a branch: it has nothing left to return to but the end.
-/

set_option autoImplicit false

namespace DisplayRaster

namespace DisplayList

open Bytecode (State lineCommands fetch walk translate RecordPlace)

variable {μ : Type} [Memory μ]

/-! ## Straight lines in pieces -/

namespace Bytecode

/-- The state after the operations of a straight line. -/
def lineState (m : μ) (st : State) (ops : List Operation) : State :=
  ops.foldl (fun st op ↦ st.next m op) st

theorem lineState_append (m : μ) (st : State) (ops rest : List Operation) :
    lineState m st (ops ++ rest) = lineState m (lineState m st ops) rest :=
  List.foldl_append

theorem lineCommands_append (m : μ) (st : State) (ops rest : List Operation) :
    lineCommands m st (ops ++ rest) =
      lineCommands m st ops ++ lineCommands m (lineState m st ops) rest := by
  induction ops generalizing st with
  | nil => rfl
  | cons op ops ih =>
    rw [List.cons_append, lineCommands, lineCommands, ih, List.append_assoc]
    rfl

/-- The records that the operations of a straight line look at. -/
def lineRecords (m : μ) (st : State) : List Operation → List RecordPlace
  | [] => []
  | op :: ops => st.records m op ++ lineRecords m (st.next m op) ops

/-- Memories with the same records give the same state. -/
theorem State.next_congr {m m' : μ} {st : State} {op : Operation}
    (h : ∀ r ∈ st.records m op, r.layout.read? m' r.addr = r.layout.read? m r.addr) :
    st.next m' op = st.next m op := by
  cases op with
  | vertices layout count addr =>
    have hslots : fillSlots m' layout count (st.locate addr + 0) st.vertices =
        fillSlots m layout count (st.locate addr) st.vertices :=
      fillSlots_shift 0 fun a ha ↦ by
        rw [UInt32.add_zero]
        exact h ⟨layout, a⟩ (List.mem_map_of_mem ha)
    rw [UInt32.add_zero] at hslots
    rw [next, next, hslots]
  | _ => rfl

/-- Memories with the same records give the same commands. -/
theorem lineCommands_congr {m m' : μ} {st : State} {ops : List Operation}
    (h : ∀ r ∈ lineRecords m st ops, r.layout.read? m' r.addr = r.layout.read? m r.addr) :
    lineCommands m' st ops = lineCommands m st ops := by
  induction ops generalizing st with
  | nil => rfl
  | cons op ops ih =>
    simp only [lineRecords, List.mem_append] at h
    rw [lineCommands, lineCommands, State.next_congr fun r hr ↦ h r (.inl hr),
      ih fun r hr ↦ h r (.inr hr)]

end Bytecode

open Bytecode (lineState operationAt)

/-! ## Lists with the lists they call -/

/-- A display list from some place on, with the lists it calls. -/
inductive CallTree where
  /-- The end of the list. -/
  | done
  | step (op : Operation) (straight : op.isStraight = true) (rest : CallTree)
  /-- A call of the list at an address. -/
  | call (addr : UInt32) (callee rest : CallTree)
  /-- A branch to the list at an address, which ends this list. -/
  | branch (addr : UInt32) (target : CallTree)

namespace CallTree

/-- The operations, with the lists that are called in place of the calls. -/
def flatten : CallTree → List Operation
  | done => []
  | step op _ rest => op :: rest.flatten
  | call _ callee rest => callee.flatten ++ rest.flatten
  | branch _ target => target.flatten

/-- The number of instructions that a walk executes; calls, branches and ends count. -/
def executed : CallTree → Nat
  | done => 1
  | step _ _ rest => rest.executed + 1
  | call _ callee rest => callee.executed + rest.executed + 1
  | branch _ target => target.executed + 1

/-- The greatest number of calls that are under way at a time. -/
def depth : CallTree → Nat
  | done => 0
  | step _ _ rest => rest.depth
  | call _ callee rest => max (callee.depth + 1) rest.depth
  | branch _ target => target.depth

/-- The tree with a call, followed by the end, in place of each branch. -/
def withCalls : CallTree → CallTree
  | done => done
  | step op straight rest => step op straight rest.withCalls
  | call addr callee rest => call addr callee.withCalls rest.withCalls
  | branch addr target => call addr target.withCalls done

/-- The tree lies in memory from an address on, if it is reached in the given state. -/
def LaidOut (m : μ) : CallTree → State → UInt32 → Prop
  | done, _, addr => operationAt m addr = some .endList
  | step op _ rest, st, addr =>
    operationAt m addr = some op ∧ rest.LaidOut m (st.next m op) (addr + Instruction.size)
  | call operand callee rest, st, addr =>
    operationAt m addr = some (.jump true operand) ∧
      callee.LaidOut m st (st.locate operand) ∧
      rest.LaidOut m (lineState m st callee.flatten) (addr + Instruction.size)
  | branch operand target, st, addr =>
    operationAt m addr = some (.jump false operand) ∧ target.LaidOut m st (st.locate operand)

instance decidableLaidOut (m : μ) :
    (t : CallTree) → (st : State) → (addr : UInt32) → Decidable (t.LaidOut m st addr)
  | done, _, addr => inferInstanceAs (Decidable (operationAt m addr = some .endList))
  | step _ _ rest, _, _ => @instDecidableAnd _ _ _ (decidableLaidOut m rest _ _)
  | call _ callee rest, _, _ =>
    @instDecidableAnd _ _ _
      (@instDecidableAnd _ _ (decidableLaidOut m callee _ _) (decidableLaidOut m rest _ _))
  | branch _ target, _, _ => @instDecidableAnd _ _ _ (decidableLaidOut m target _ _)

/-! ## Calls in place of branches -/

@[simp]
theorem flatten_withCalls (t : CallTree) : t.withCalls.flatten = t.flatten := by
  induction t with
  | done => rfl
  | step op straight rest ih => rw [withCalls, flatten, flatten, ih]
  | call addr callee rest ihcallee ihrest => rw [withCalls, flatten, flatten, ihcallee, ihrest]
  | branch addr target ih => rw [withCalls, flatten, flatten, flatten, ih, List.append_nil]

/-- A branch saves the end of the list it leaves. -/
theorem executed_le_withCalls (t : CallTree) : t.executed ≤ t.withCalls.executed := by
  induction t with
  | done => exact Nat.le_refl _
  | step op straight rest ih => exact Nat.succ_le_succ ih
  | call addr callee rest ihcallee ihrest =>
    exact Nat.succ_le_succ (Nat.add_le_add ihcallee ihrest)
  | branch addr target ih =>
    rw [withCalls, executed, executed, executed]
    omega

/-- A branch needs no place to return to. -/
theorem depth_le_withCalls (t : CallTree) : t.depth ≤ t.withCalls.depth := by
  induction t with
  | done => exact Nat.le_refl _
  | step op straight rest ih => exact ih
  | call addr callee rest ihcallee ihrest =>
    rw [withCalls, depth, depth]
    omega
  | branch addr target ih =>
    rw [withCalls, depth, depth, depth]
    omega

/-- Every call that is under way has been executed. -/
theorem depth_lt_executed (t : CallTree) : t.depth < t.executed := by
  induction t with
  | done => exact Nat.zero_lt_one
  | step op straight rest ih => exact Nat.lt_succ_of_lt ih
  | call addr callee rest ihcallee ihrest =>
    rw [depth, executed]
    omega
  | branch addr target ih => exact Nat.lt_succ_of_lt ih

end CallTree

/-! ## Walks -/

namespace Bytecode

/-- How a walk goes on after the end of a list: with the caller, if there is one. -/
def resume (m : μ) (limit budget : Nat) (returns : Array UInt32) (st : State)
    (done : Array Command) : Outcome :=
  match returns.back? with
  | some addr => walk m limit budget ⟨addr, returns.pop⟩ st done
  | none => ⟨.finished, done⟩

theorem resume_push (m : μ) (limit budget : Nat) (returns : Array UInt32) (addr : UInt32)
    (st : State) (done : Array Command) :
    resume m limit budget (returns.push addr) st done =
      walk m limit budget ⟨addr, returns⟩ st done := by
  rw [resume, Array.back?_push, Array.pop_push]

/-- **A walk through a list with its calls** gives the commands of the operations in place, and
goes on with the caller. -/
theorem walk_callTree {m : μ} {limit : Nat} {t : CallTree} {st : State} {addr : UInt32}
    (hm : t.LaidOut m st addr) {returns : Array UInt32} (hroom : returns.size + t.depth ≤ limit)
    (budget : Nat) (done : Array Command) :
    walk m limit (t.executed + budget) ⟨addr, returns⟩ st done =
      resume m limit budget returns (lineState m st t.flatten)
        (done ++ lineCommands m st t.flatten) := by
  -- The return addresses vary in the induction: a callee is walked with one more of them.
  induction t generalizing st addr returns budget done with
  | done =>
    have hop : operationAt m addr = some .endList := hm
    rw [CallTree.executed, Nat.add_comm, walk_succ hop]
    cases hback : returns.back? with
    | none => simp [Place.next, resume, hback, CallTree.flatten, lineCommands, commands]
    | some ret =>
      simp [Place.next, resume, hback, CallTree.flatten, lineCommands, commands, lineState,
        State.next]
  | step op straight rest ih =>
    obtain ⟨hop, hrest⟩ := hm
    rw [CallTree.executed, Nat.add_right_comm, walk_succ hop,
      Place.next_of_isStraight straight]
    simp only
    rw [ih hrest hroom, append_commands]
    rfl
  | call operand callee rest ihcallee ihrest =>
    obtain ⟨hop, hcallee, hrest⟩ := hm
    rw [CallTree.depth] at hroom
    have hnext : Place.next limit st ⟨addr, returns⟩ (.jump true operand) =
        some ⟨st.locate operand, returns.push (addr + Instruction.size)⟩ := by
      rw [Place.next, if_pos (by simp; omega)]
    rw [CallTree.executed, Nat.add_right_comm, Nat.add_assoc callee.executed, walk_succ hop, hnext]
    simp only
    have hst : st.next m (.jump true operand) = st := rfl
    rw [hst, ihcallee hcallee (by rw [Array.size_push]; omega), resume_push,
      ihrest hrest (by omega), CallTree.flatten, lineCommands_append, lineState_append,
      append_commands, append_commands]
    rfl
  | branch operand target ih =>
    obtain ⟨hop, htarget⟩ := hm
    have hnext : Place.next limit st ⟨addr, returns⟩ (.jump false operand) =
        some ⟨st.locate operand, returns⟩ := rfl
    rw [CallTree.executed, Nat.add_right_comm, walk_succ hop, hnext]
    simp only
    have hst : st.next m (.jump false operand) = st := rfl
    rw [hst, ih htarget hroom, append_commands]
    rfl

/-- The commands of a list with its calls. -/
theorem translate_callTree {m : μ} {t : CallTree} {start : UInt32}
    (hm : t.LaidOut m .initial start) (hdepth : t.depth ≤ callLimit) {budget : Nat}
    (hbudget : t.executed ≤ budget) :
    translate m start budget = lineCommands m .initial t.flatten ++ [.finish] := by
  have hlt := t.depth_lt_executed
  have hroom : (#[] : Array UInt32).size + t.depth ≤ min budget callLimit := by
    simp
    omega
  have hwalk := walk_callTree hm hroom (budget - t.executed) #[]
  rw [show t.executed + (budget - t.executed) = budget by omega] at hwalk
  rw [translate, run, State.unsegmented_initial.locate, hwalk]
  simp [resume]

/-- **Calls behave as inlining.**  A display list with its calls, in memory and with room for its
return addresses and its instructions, translates to the commands of its operations with the called
lists in place of the calls, and the end command.  So does the list with branches in place of some
of the calls that are followed by the end of their list; it translates to the very same commands if
the change leaves the vertex records alone. -/
theorem translate_inlines {m : μ} {t : CallTree} {start : UInt32}
    (hm : t.LaidOut m .initial start) (hdepth : t.depth ≤ callLimit) {budget : Nat}
    (hbudget : t.executed ≤ budget) :
    translate m start budget = lineCommands m .initial t.flatten ++ [.finish] ∧
      ∀ {t' : CallTree} {m' : μ}, t'.withCalls = t → t'.LaidOut m' .initial start →
        translate m' start budget = lineCommands m' .initial t.flatten ++ [.finish] ∧
        ((∀ r ∈ lineRecords m .initial t.flatten,
            r.layout.read? m' r.addr = r.layout.read? m r.addr) →
          translate m' start budget = translate m start budget) := by
  have htree := translate_callTree hm hdepth hbudget
  refine ⟨htree, ?_⟩
  rintro t' m' rfl hm'
  have hdepth' := Nat.le_trans t'.depth_le_withCalls hdepth
  have hbudget' := Nat.le_trans t'.executed_le_withCalls hbudget
  have htree' := translate_callTree hm' hdepth' hbudget'
  rw [← t'.flatten_withCalls] at htree'
  refine ⟨htree', fun hrecords ↦ ?_⟩
  rw [htree', htree, lineCommands_congr hrecords]

/-- A list that calls another one twice, through a segment that it has set; at its end it may branch
there as well. -/
theorem translate_inlines_twice :
    let callee : List Instruction :=
      [.vertices .plain 1 96, .setPrimColor 2, .triangle .plain 0 0 0, .endList]
    let caller (last : Instruction) : List Instruction :=
      [.segment 6 64, .call 0x06000000, .setPrimColor 3, last, .endList]
    let inMemory (last : Instruction) : Rdram :=
      (Instruction.write (Instruction.write (Rdram.zeroed 128) 64 callee).memory 0
        (caller last)).memory
    let v : Vertex := .position 0 0
    translate (inMemory (.call 0x06000000)) 0 13 =
        [.setPrimColor 2, .solidTriangle ⟨v, v, v⟩, .setPrimColor 3, .setPrimColor 2,
          .solidTriangle ⟨v, v, v⟩, .finish] ∧
      translate (inMemory (.branch 0x06000000)) 0 13 =
        translate (inMemory (.call 0x06000000)) 0 13 := by
  intro callee caller inMemory v
  let body : CallTree :=
    .step (.vertices .plain 1 96) rfl (.step (.setPrimColor 2) rfl
      (.step (.triangle .plain ⟨0, 0, 0⟩) rfl .done))
  let tree (last : CallTree) : CallTree :=
    .step (.segment 6 64) rfl (.call 0x06000000 body (.step (.setPrimColor 3) rfl last))
  have hcall : (tree (.call 0x06000000 body .done)).LaidOut (inMemory (.call 0x06000000)) .initial
      0 := by decide +kernel
  have hbranch : (tree (.branch 0x06000000 body)).LaidOut (inMemory (.branch 0x06000000)) .initial
      0 := by decide +kernel
  obtain ⟨htranslate, hreplace⟩ := translate_inlines hcall (by decide) (show _ ≤ 13 by decide)
  refine ⟨htranslate.trans (by decide +kernel), (hreplace rfl hbranch).2 ?_⟩
  decide +kernel

end Bytecode

end DisplayList

end DisplayRaster
