import DisplayRaster.Proofs.DisplayList.Relocation
import Mathlib.Data.List.Infix

/-!
# Budgets cut translations

A walk under a budget is the beginning of any walk under a larger one: it makes the first visits and
stops (`visits_take`), and its commands are those of its visits (`toList_commands_walk`).  Once a
walk has come to an end by itself, more instructions change nothing (`walk_of_halted`).

The budget also sizes the stack of return addresses, so that walks under different budgets have
different stacks.  But every return address has cost an instruction.  A stack that has room for the
whole budget is never full, and a larger one makes no difference (`walk_limit`, `visits_limit`); so
all walks may as well have the greatest stack there is (`run_eq`).
-/

set_option autoImplicit false

namespace DisplayRaster

namespace DisplayList

namespace Bytecode

variable {μ : Type} [Memory μ] {m : μ} {limit limit' budget : Nat} {place : Place} {st : State}
  {op : Operation}

/-! ## Room for return addresses -/

/-- An operation adds at most one return address. -/
theorem Place.size_returns_next {next : Place} (h : place.next limit st op = some next) :
    next.returns.size ≤ place.returns.size + 1 := by
  cases op with
  | endList =>
    obtain ⟨addr, -, rfl⟩ := Option.map_eq_some_iff.1 h
    rw [Array.size_pop]
    omega
  | jump returns addr =>
    cases h
    dsimp only
    split
    · rw [Array.size_push]
    · exact Nat.le_succ _
  | _ =>
    cases h
    exact Nat.le_succ _

/-- Two stacks that are not full take the same return address. -/
theorem Place.next_limit (h : place.returns.size < limit) (h' : place.returns.size < limit') :
    place.next limit' st op = place.next limit st op := by
  cases op with
  | jump returns addr => simp only [next, h, h']
  | _ => rfl

/-- **A stack with room for the whole budget is never full**, and a larger one makes no
difference. -/
theorem walk_limit (hlimit : limit ≤ limit') (hroom : place.returns.size + budget ≤ limit)
    (st : State) (done : Array Command) :
    walk m limit' budget place st done = walk m limit budget place st done := by
  induction budget generalizing place st done with
  | zero => rfl
  | succ budget ih =>
    cases hop : operationAt m place.addr with
    | none => rw [walk_of_unreadable hop, walk_of_unreadable hop]
    | some op =>
      have hlimits : place.next limit' st op = place.next limit st op :=
        Place.next_limit (by omega) (by omega)
      rw [walk_succ hop, walk_succ hop, hlimits]
      cases hnext : place.next limit st op with
      | none => rfl
      | some next =>
        have hsize := Place.size_returns_next hnext
        exact ih (by omega) _ _

theorem visits_limit (hlimit : limit ≤ limit') (hroom : place.returns.size + budget ≤ limit)
    (st : State) : visits m limit' budget place st = visits m limit budget place st := by
  induction budget generalizing place st with
  | zero => rfl
  | succ budget ih =>
    rw [visits, visits]
    cases operationAt m place.addr with
    | none => rfl
    | some op =>
      have hlimits : place.next limit' st op = place.next limit st op :=
        Place.next_limit (by omega) (by omega)
      simp only [hlimits]
      cases hnext : place.next limit st op with
      | none => rfl
      | some next =>
        have hsize := Place.size_returns_next hnext
        exact congrArg _ (ih (by omega) _)

/-- Every walk may as well have the greatest stack. -/
theorem run_eq (m : μ) (start : UInt32) (budget : Nat) :
    run m start budget =
      walk m callLimit budget ⟨State.initial.locate start, #[]⟩ .initial #[] := by
  rw [run]
  rcases Nat.le_total budget callLimit with hle | hle
  · rw [Nat.min_eq_left hle]
    exact (walk_limit hle (by simp) _ _).symm
  · rw [Nat.min_eq_right hle]

theorem runVisits_eq (m : μ) (start : UInt32) (budget : Nat) :
    runVisits m start budget =
      visits m callLimit budget ⟨State.initial.locate start, #[]⟩ .initial := by
  rw [runVisits]
  rcases Nat.le_total budget callLimit with hle | hle
  · rw [Nat.min_eq_left hle]
    exact (visits_limit hle (by simp) _).symm
  · rw [Nat.min_eq_right hle]

/-! ## Walks under two budgets -/

/-- A walk under a smaller budget makes the first visits. -/
theorem visits_take (m : μ) (limit budget more : Nat) (place : Place) (st : State) :
    visits m limit budget place st = (visits m limit (budget + more) place st).take budget := by
  induction budget generalizing place st with
  | zero => rfl
  | succ budget ih =>
    rw [Nat.add_right_comm, visits, visits, List.take_succ_cons]
    cases operationAt m place.addr with
    | none => simp only [List.take_nil]
    | some op =>
      cases hnext : place.next limit st op with
      | none => simp only [hnext, List.take_nil]
      | some next =>
        simp only [hnext]
        exact congrArg _ (ih _ _)

/-- A walk that has come to an end by itself is the same under every larger budget. -/
theorem walk_of_halted {more : Nat} {done : Array Command}
    (h : (walk m limit budget place st done).halt ≠ .budget) :
    walk m limit (budget + more) place st done = walk m limit budget place st done := by
  induction budget generalizing place st done with
  | zero => exact absurd rfl h
  | succ budget ih =>
    rw [Nat.add_right_comm]
    cases hop : operationAt m place.addr with
    | none => rw [walk_of_unreadable hop, walk_of_unreadable hop]
    | some op =>
      rw [walk_succ hop] at h
      rw [walk_succ hop, walk_succ hop]
      cases hnext : place.next limit st op with
      | none => rfl
      | some next =>
        rw [hnext] at h
        exact ih h

/-! ## The commands of visits -/

/-- The commands of the instruction that a visit finds. -/
def Visit.commands (m : μ) (v : Visit) : List Command :=
  match operationAt m v.addr with
  | some op => Bytecode.commands v.state op
  | none => []

/-- The commands of a walk are those of its visits. -/
theorem toList_commands_walk (m : μ) (limit budget : Nat) (place : Place) (st : State)
    (done : Array Command) :
    (walk m limit budget place st done).commands.toList =
      done.toList ++ (visits m limit budget place st).flatMap (Visit.commands m) := by
  induction budget generalizing place st done with
  | zero => exact (List.append_nil _).symm
  | succ budget ih =>
    rw [visits, List.flatMap_cons, Visit.commands]
    cases hop : operationAt m place.addr with
    | none => rw [walk_of_unreadable hop]; simp
    | some op =>
      rw [walk_succ hop]
      cases hnext : place.next limit st op with
      | none => simp [hnext]
      | some next =>
        simp only [hnext]
        rw [ih, Array.toList_appendList, List.append_assoc]

theorem translate_eq_flatMap (m : μ) (start : UInt32) (budget : Nat) :
    translate m start budget =
      (runVisits m start budget).flatMap (Visit.commands m) ++ [.finish] := by
  rw [translate, run, runVisits, toList_commands_walk]
  rfl

/-- **Budgets cut translations.**  Under a smaller budget a walk makes the first of the visits that
it makes under a larger one, and so its commands, up to the end command, are a prefix of those of
the larger budget.  If it stopped for another reason than its budget, both translations are the
same. -/
theorem translate_budget (m : μ) (start : UInt32) {budget budget' : Nat} (h : budget ≤ budget') :
    runVisits m start budget = (runVisits m start budget').take budget ∧
      (translate m start budget).dropLast <+: (translate m start budget').dropLast ∧
      ((run m start budget).halt ≠ .budget →
        translate m start budget' = translate m start budget) := by
  obtain ⟨more, rfl⟩ := Nat.exists_eq_add_of_le h
  have hvisits : runVisits m start budget = (runVisits m start (budget + more)).take budget := by
    rw [runVisits_eq, runVisits_eq]
    exact visits_take m callLimit budget more _ _
  refine ⟨hvisits, ?_, fun hhalt ↦ ?_⟩
  · rw [translate_eq_flatMap, translate_eq_flatMap, List.dropLast_concat, List.dropLast_concat,
      hvisits]
    exact (List.take_prefix _ _).flatMap _
  · rw [run_eq] at hhalt
    rw [translate, translate, run_eq, run_eq, walk_of_halted hhalt]

/-- A list that calls its own end and then runs into it once more. -/
theorem translate_budget_fallthrough :
    let m := (Instruction.write (Rdram.zeroed 32) 0
      [.call 16, .setPrimColor 1, .setPrimColor 2, .endList]).memory
    translate m 0 4 = [.setPrimColor 2, .setPrimColor 1, .finish] ∧
      (translate m 0 4).dropLast <+: (translate m 0 9).dropLast ∧
      (run m 0 6).halt = .finished ∧ translate m 0 9 = translate m 0 6 := by
  intro m
  have hhalt : (run m 0 6).halt = .finished := by decide
  obtain ⟨-, hcut, -⟩ := translate_budget m 0 (show 4 ≤ 9 by decide)
  obtain ⟨-, -, hsame⟩ := translate_budget m 0 (show 6 ≤ 9 by decide)
  exact ⟨by decide, hcut, hhalt, hsame (by rw [hhalt]; decide)⟩

end Bytecode

end DisplayList

end DisplayRaster
