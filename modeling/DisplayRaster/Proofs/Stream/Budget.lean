import DisplayRaster.Proofs.Checked.Stream
import DisplayRaster.Proofs.Stream.Codec
import DisplayRaster.Proofs.Stream.Targets

/-!
# Budgets cut streams

Under a word budget a stream runs up to the boundary of an instruction.  `Stream.fetched` lists the
instructions of a run, and `fetch_eq_ok_iff` says all that there is to fetching one: memory holds
its words one after another, they fit in what is left of the budget, and it is not the end command.
So whatever is fetched under a budget is fetched under a larger one, too (`fetch_add`), with the
same effect, and the run under the larger budget finds the same memory behind it, even if the stream
rewrites itself.

What happens at some point of a run is seen from the instructions before that point, which tell the
state, the memory and the place in the stream (`fetchedFor_append`).
-/

set_option autoImplicit false

namespace DisplayRaster

/-! ## Words that memory holds -/

section

variable {μ : Type} [Memory μ] {m : μ} {addr : UInt32}

/-- Each of the words that memory holds can be read. -/
theorem Memory.Holds.read32_eq {ws : List UInt32} (h : Holds m addr ws) {k : Nat}
    (hk : k < ws.length) : read32 m (addr + 4 * UInt32.ofNat k) = .ok ws[k] := by
  have hsplit := List.take_append_drop k ws
  rw [List.drop_eq_getElem_cons hk] at hsplit
  rw [← hsplit, holds_append, List.length_take, Nat.min_eq_left (Nat.le_of_lt hk)] at h
  exact h.2.1

end

namespace Stream

variable {μ : Type} [Memory μ]

/-! ## One instruction -/

section

variable {m : μ} {addr : UInt32}

theorem readWords_eq_ok_iff {n : Nat} {words : Vector UInt32 n} :
    readWords m addr n = .ok words ↔ Memory.Holds m addr words.toList := by
  refine ⟨fun h ↦ ?_, readWords_of_holds⟩
  induction n with
  | zero =>
    obtain rfl : words = #v[] := Vector.eq_empty
    trivial
  | succ n ih =>
    rw [readWords] at h
    split at h
    · cases h
    · next first hfirst =>
      dsimp only at h
      split at h
      · next word hword =>
        cases h
        rw [Vector.toList_push, Memory.holds_append, Vector.length_toList]
        exact ⟨ih hfirst, hword, trivial⟩
      · cases h

/-- The words of an instruction: its tag and its operands. -/
def Instruction.words (i : Instruction) : List UInt32 := i.opcode.tag :: i.operands.toList

theorem Instruction.length_words (i : Instruction) :
    i.words.length = 1 + i.opcode.operandCount := by
  rw [words, List.length_cons, Vector.length_toList, Nat.add_comm]

/-- The place some words further on. -/
def Cursor.skip (cursor : Cursor) (n : Nat) : Cursor :=
  ⟨cursor.addr + 4 * UInt32.ofNat n, cursor.budget - n⟩

variable {cursor next : Cursor} {i : Instruction}

/-- **An instruction is fetched iff it is there with all its words, in memory and in the
budget.** -/
theorem fetch_eq_ok_iff :
    fetch m cursor = .ok (i, next) ↔
      i.opcode ≠ .finish ∧ i.words.length ≤ cursor.budget ∧
        Memory.Holds m cursor.addr i.words ∧ next = cursor.skip i.words.length := by
  constructor
  · intro h
    have hbudget : cursor.budget ≠ 0 := by
      intro hzero
      rw [fetch, if_pos hzero] at h
      cases h
    cases hread : Memory.read32 m cursor.addr with
    | error fault =>
      simp only [fetch, if_neg hbudget, hread] at h
      cases h
    | ok tag =>
      cases htag : Opcode.ofTag? tag with
      | none =>
        simp only [fetch, if_neg hbudget, hread, htag] at h
        cases h
      | some op =>
        by_cases hop : op = .finish
        · subst hop
          simp only [fetch, if_neg hbudget, hread, htag] at h
          cases h
        · rw [fetch_of_tag hbudget hread htag hop] at h
          split at h
          · cases h
          · next hfit =>
            split at h
            · cases h
            · next operands hwords =>
              cases h
              rw [Instruction.length_words]
              have htag := Opcode.ofTag?_eq_some_iff.1 htag
              exact ⟨hop, Nat.le_of_not_lt hfit,
                ⟨htag ▸ hread, readWords_eq_ok_iff.1 hwords⟩, rfl⟩
  · rintro ⟨hop, hfit, ⟨htag, hwords⟩, rfl⟩
    rw [Instruction.length_words] at hfit ⊢
    rw [fetch_of_tag (by omega) htag (Opcode.ofTag?_tag _) hop, if_neg (by omega),
      readWords_eq_ok_iff.2 hwords]
    rfl

/-- A larger budget lets through what a smaller one does. -/
theorem fetch_add (h : fetch m cursor = .ok (i, next)) (more : Nat) :
    fetch m ⟨cursor.addr, cursor.budget + more⟩ = .ok (i, ⟨next.addr, next.budget + more⟩) := by
  obtain ⟨hop, hfit, hheld, rfl⟩ := fetch_eq_ok_iff.1 h
  refine fetch_eq_ok_iff.2 ⟨hop, Nat.le_add_right_of_le hfit, hheld, ?_⟩
  rw [Cursor.skip, Cursor.skip, Nat.sub_add_comm hfit]

theorem Cursor.skip_zero (cursor : Cursor) : cursor.skip 0 = cursor := by
  rw [skip, Nat.sub_zero]
  simp

theorem Cursor.skip_skip (cursor : Cursor) (n k : Nat) :
    (cursor.skip n).skip k = cursor.skip (n + k) := by
  simp only [skip, UInt32.ofNat_add, UInt32.mul_add, UInt32.add_assoc, Nat.sub_sub]

end

/-! ## The instructions of a run -/

/-- The instructions that `runFor` executes, in order. -/
def fetchedFor (fb : Framebuffer) : (fuel : Nat) → RenderState → μ → Cursor → List Instruction
  | 0, _, _, _ => []
  | fuel + 1, st, m, cursor =>
    match fetch m cursor with
    | .error _ => []
    | .ok (i, cursor) =>
      i :: fetchedFor fb fuel (i.command.select fb st m) (i.command.draw fb st m) cursor

/-- The instructions that the stream at `start` executes on at most `budget` words. -/
def fetched (fb : Framebuffer) (m : μ) (start : UInt32) (budget : Nat) : List Instruction :=
  fetchedFor fb budget (.initial fb.width fb.height) m ⟨start, budget⟩

/-- The number of words of a list of instructions. -/
def wordCount (is : List Instruction) : Nat := (is.map fun i ↦ i.words.length).sum

variable {fb : Framebuffer} {fuel fuel' : Nat} {st : RenderState} {m : μ} {cursor : Cursor}

/-- A run ends where no instruction can be fetched. -/
theorem fetchedFor_of_error {halt : Halt} (h : fetch m cursor = .error halt) :
    fetchedFor fb fuel st m cursor = [] := by
  cases fuel with
  | zero => rfl
  | succ fuel => rw [fetchedFor, h]

/-- A run goes on behind the instruction that is fetched. -/
theorem fetchedFor_of_ok {i : Instruction} {next : Cursor} (h : fetch m cursor = .ok (i, next)) :
    fetchedFor fb (fuel + 1) st m cursor =
      i :: fetchedFor fb fuel (i.command.select fb st m) (i.command.draw fb st m) next := by
  rw [fetchedFor, h]

/-- The commands of a run are those of its instructions. -/
theorem executedFor_eq_map (fb : Framebuffer) (fuel : Nat) (st : RenderState) (m : μ)
    (cursor : Cursor) :
    executedFor fb fuel st m cursor =
      (fetchedFor fb fuel st m cursor).map Instruction.command := by
  induction fuel generalizing st m cursor with
  | zero => rfl
  | succ fuel ih =>
    rw [executedFor]
    cases hfetch : fetch m cursor with
    | error halt => rw [fetchedFor_of_error hfetch, List.map_nil]
    | ok next =>
      rw [fetchedFor_of_ok hfetch, List.map_cons]
      exact congrArg _ (ih _ _ next.2)

/-- A run leaves what its instructions leave. -/
theorem memory_runFor (fb : Framebuffer) (fuel : Nat) (st : RenderState) (m : μ)
    (cursor : Cursor) :
    (runFor fb fuel st m cursor).memory =
      (Command.applyAll fb ((fetchedFor fb fuel st m cursor).map Instruction.command) st m).2 := by
  rw [← executedFor_eq_map, ← runFor_eq_applyAll]

/-- The first instructions of a run are those of a run of as many instructions. -/
theorem fetchedFor_take (hfuel : fuel ≤ fuel') :
    fetchedFor fb fuel st m cursor = (fetchedFor fb fuel' st m cursor).take fuel := by
  induction fuel generalizing fuel' st m cursor with
  | zero => rfl
  | succ fuel ih =>
    obtain ⟨fuel', rfl⟩ : ∃ k, fuel' = k + 1 := ⟨fuel' - 1, by omega⟩
    cases hfetch : fetch m cursor with
    | error halt => rw [fetchedFor_of_error hfetch, fetchedFor_of_error hfetch, List.take_nil]
    | ok next =>
      rw [fetchedFor_of_ok hfetch, fetchedFor_of_ok hfetch, List.take_succ_cons]
      exact congrArg _ (ih (by omega))

/-- A run has at most as many instructions as it may have. -/
theorem length_fetchedFor_le : (fetchedFor fb fuel st m cursor).length ≤ fuel := by
  rw [fetchedFor_take (Nat.le_refl fuel), List.length_take]
  omega

/-- **A larger budget prolongs a run.** -/
theorem fetchedFor_isPrefix (hfuel : fuel ≤ fuel') (more : Nat) :
    fetchedFor fb fuel st m cursor <+:
      fetchedFor fb fuel' st m ⟨cursor.addr, cursor.budget + more⟩ := by
  induction fuel generalizing fuel' st m cursor with
  | zero => exact List.nil_prefix
  | succ fuel ih =>
    obtain ⟨fuel', rfl⟩ : ∃ k, fuel' = k + 1 := ⟨fuel' - 1, by omega⟩
    cases hfetch : fetch m cursor with
    | error halt =>
      rw [fetchedFor_of_error hfetch]
      exact List.nil_prefix
    | ok next =>
      rw [fetchedFor_of_ok hfetch, fetchedFor_of_ok (fetch_add hfetch more)]
      exact (List.prefix_cons_inj _).2 (ih (by omega))

/-- A run stays within its budget. -/
theorem wordCount_fetchedFor_le : wordCount (fetchedFor fb fuel st m cursor) ≤ cursor.budget := by
  induction fuel generalizing st m cursor with
  | zero => exact Nat.zero_le _
  | succ fuel ih =>
    cases hfetch : fetch m cursor with
    | error halt =>
      rw [fetchedFor_of_error hfetch]
      exact Nat.zero_le _
    | ok result =>
      obtain ⟨i, next⟩ := result
      obtain ⟨-, hfit, -, rfl⟩ := fetch_eq_ok_iff.1 hfetch
      rw [fetchedFor_of_ok hfetch, wordCount, List.map_cons, List.sum_cons]
      exact Nat.add_le_of_le_sub' hfit ih

/-! ## Points of a run -/

/-- The first instruction of a run is fetched, and the run goes on behind it. -/
theorem fetchedFor_eq_cons {i : Instruction} {rest : List Instruction}
    (h : fetchedFor fb fuel st m cursor = i :: rest) :
    fetch m cursor = .ok (i, cursor.skip i.words.length) ∧
      rest = fetchedFor fb (fuel - 1) (i.command.select fb st m) (i.command.draw fb st m)
        (cursor.skip i.words.length) := by
  cases fuel with
  | zero => cases h
  | succ fuel =>
    cases hfetch : fetch m cursor with
    | error halt => cases (fetchedFor_of_error hfetch).symm.trans h
    | ok result =>
      obtain ⟨i', next⟩ := result
      obtain ⟨-, -, -, rfl⟩ := fetch_eq_ok_iff.1 hfetch
      cases (fetchedFor_of_ok hfetch).symm.trans h
      exact ⟨rfl, rfl⟩

/-- **Behind its first instructions a run goes on** from the state and the memory that they leave,
and behind their words. -/
theorem fetchedFor_append {done rest : List Instruction}
    (h : fetchedFor fb fuel st m cursor = done ++ rest) :
    rest = fetchedFor fb (fuel - done.length)
      (Command.applyAll fb (done.map Instruction.command) st m).1
      (Command.applyAll fb (done.map Instruction.command) st m).2
      (cursor.skip (wordCount done)) := by
  induction done generalizing fuel st m cursor with
  | nil => exact h.symm.trans (congrArg _ cursor.skip_zero.symm)
  | cons i done ih =>
    obtain ⟨-, htail⟩ := fetchedFor_eq_cons h
    rw [ih htail.symm, Cursor.skip_skip, List.length_cons, Nat.add_comm done.length,
      ← Nat.sub_sub]
    rfl

/-- An instruction of a run is in memory when the run comes to it, with all its words. -/
theorem holds_of_fetchedFor {done rest : List Instruction} {i : Instruction}
    (h : fetchedFor fb fuel st m cursor = done ++ i :: rest) :
    i.opcode ≠ .finish ∧ i.words.length ≤ cursor.budget - wordCount done ∧
      Memory.Holds (Command.applyAll fb (done.map Instruction.command) st m).2
        (cursor.skip (wordCount done)).addr i.words := by
  have hfetch := (fetchedFor_eq_cons (fetchedFor_append h).symm).1
  obtain ⟨hop, hfit, hheld, -⟩ := fetch_eq_ok_iff.1 hfetch
  exact ⟨hop, hfit, hheld⟩

/-- A run does not go on behind a tag without all its operands. -/
theorem eq_nil_of_cut {done rest : List Instruction} {op : Opcode}
    (h : fetchedFor fb fuel st m cursor = done ++ rest) :
    let after := (Command.applyAll fb (done.map Instruction.command) st m).2
    let addr := (cursor.skip (wordCount done)).addr
    Memory.read32 after addr = .ok op.tag →
    (cursor.budget < wordCount done + (1 + op.operandCount) ∨ ∃ k < op.operandCount, ∃ fault,
      Memory.read32 after (addr + 4 * UInt32.ofNat (1 + k)) = .error fault) →
    rest = [] := by
  intro after addr htag hcut
  cases rest with
  | nil => rfl
  | cons i rest =>
    obtain ⟨-, hfit, hheld⟩ := holds_of_fetchedFor h
    have hread : op.tag = i.opcode.tag := Except.ok.inj (htag.symm.trans hheld.1)
    obtain rfl := Opcode.tag_injective hread
    rw [i.length_words] at hfit
    rcases hcut with hbudget | ⟨k, hk, fault, hfault⟩
    · omega
    · have hword := hheld.read32_eq (k := 1 + k) (by rw [i.length_words]; omega)
      cases hword.symm.trans hfault

/-- **Budgets cut streams at the boundary of an instruction.**  Under a smaller budget a run
executes the first of the instructions that it executes under a larger one, and leaves the memory
that the larger run has behind them.  They have no more words than the budget.

Each has exactly the operands that its tag asks for, and memory holds tag and operands one after
another when the run comes to it.  If the operands of the next instruction do not fit in the budget,
or one of them cannot be read, the run ends there with the memory it has found. -/
theorem render_budget (fb : Framebuffer) (m : μ) (start : UInt32) {budget budget' : Nat}
    (h : budget ≤ budget') :
    let initial := RenderState.initial fb.width fb.height
    let reached (done : List Instruction) : μ :=
      (Command.applyAll fb (done.map Instruction.command) initial m).2
    let place (done : List Instruction) : UInt32 := start + 4 * UInt32.ofNat (wordCount done)
    let run := fetched fb m start budget
    run <+: fetched fb m start budget' ∧
    render fb m start budget = reached run ∧
    (runFor fb run.length initial m ⟨start, budget'⟩).memory = reached run ∧
    wordCount run ≤ budget ∧
    (∀ done i rest, run = done ++ i :: rest →
      i.opcode ≠ .finish ∧ argumentCount? i.opcode.tag = some i.operands.toList.length ∧
        Memory.Holds (reached done) (place done) (i.opcode.tag :: i.operands.toList)) ∧
    ∀ (done rest : List Instruction) (op : Opcode), run = done ++ rest →
      Memory.read32 (reached done) (place done) = .ok op.tag →
      (budget < wordCount done + (1 + op.operandCount) ∨ ∃ k < op.operandCount, ∃ fault,
        Memory.read32 (reached done) (place done + 4 * UInt32.ofNat (1 + k)) = .error fault) →
      rest = [] ∧ render fb m start budget = reached done := by
  intro initial reached place run
  have hcut : run <+: fetched fb m start budget' := by
    obtain ⟨more, rfl⟩ := Nat.exists_eq_add_of_le h
    exact fetchedFor_isPrefix h more
  have hrender : render fb m start budget = reached run :=
    memory_runFor fb budget initial m ⟨start, budget⟩
  refine ⟨hcut, hrender, ?_, wordCount_fetchedFor_le, ?_, ?_⟩
  · have hle : run.length ≤ budget' := Nat.le_trans length_fetchedFor_le h
    have hfirst : fetchedFor fb run.length initial m ⟨start, budget'⟩ = run :=
      (fetchedFor_take hle).trans (List.prefix_iff_eq_take.1 hcut).symm
    rw [memory_runFor, hfirst]
  · intro done i rest hrun
    obtain ⟨hop, -, hheld⟩ := holds_of_fetchedFor hrun
    exact ⟨hop, by rw [argumentCount?_tag, Vector.length_toList], hheld⟩
  · intro done rest op hrun htag hcannot
    have hrest : rest = [] := eq_nil_of_cut hrun htag hcannot
    refine ⟨hrest, ?_⟩
    rw [hrender, hrun, hrest, List.append_nil]

/-- A gradient whose last operand is the first word beyond the budget. -/
theorem render_budget_gradient :
    let fb : Framebuffer := ⟨48, 1, 1, 1⟩
    let m := (Memory.writeWords (Rdram.zeroed 64) 0 [0x30, 7, 0x01, 2, 2]).memory
    let run := fetched fb m 0 4
    run <+: fetched fb m 0 5 ∧ run.map Instruction.words = [[0x30, 7]] ∧
      Memory.read32 (Command.applyAll fb (run.map Instruction.command) (.initial 1 1) m).2 8 =
        .ok (Opcode.tag .gradient) ∧
      render fb m 0 4 =
        (Command.applyAll fb (run.map Instruction.command) (.initial 1 1) m).2 ∧
      (render fb m 0 4).byte 49 = 0 ∧ (render fb m 0 5).byte 49 = 3 := by
  intro fb m run
  obtain ⟨hcut, -, -, -, -, hstop⟩ := render_budget fb m 0 (show 4 ≤ 5 by decide)
  have hcount : wordCount run = 2 := by decide
  have htag : Memory.read32
      (Command.applyAll fb (run.map Instruction.command) (.initial 1 1) m).2 8 =
        .ok (Opcode.tag .gradient) := by decide
  have hplace : 0 + 4 * UInt32.ofNat (wordCount run) = 8 := by
    rw [hcount]
    rfl
  simp only at hstop
  have hend := hstop run [] .gradient (List.append_nil run).symm
    (by rw [hplace]; exact htag) (.inl (by rw [hcount]; decide))
  exact ⟨hcut, by decide, htag, hend.2, by decide, by decide⟩

end Stream

end DisplayRaster
