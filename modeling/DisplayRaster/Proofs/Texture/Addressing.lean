import DisplayRaster.Proofs.Checked.Sampling
import Mathlib.Algebra.Ring.Periodic
import Mathlib.Data.Int.ModEq

/-!
# Coordinates outside a texture

Every addressing mode leaves the coordinates of one period where they are.  What it does to the
others is `FoldsInto`, and `foldsInto_period` proves that of the period that addressing works with.

* Repetition is congruence modulo the period (`eq_fold_wrap_iff`).
* Two coordinates are mirrored to one texel iff one is congruent, modulo two periods, to the other
  or to its reflection at the near edge (`fold_mirror_eq_iff`).  The reflection at the far edge and
  the period are cases of this.
* Clamping keeps the order (`fold_clamp_le`) and takes the texel nearest to the coordinate, of which
  there is only one (`eq_fold_clamp_iff`).

These laws hold for all integers.  A machine has coordinates in signed words, and `foldWord?` folds
those by operations that fail where no word holds the result.  None does (`exists_foldWord`): the
longest period is short enough for two periods to fit in a word.
-/

set_option autoImplicit false

namespace DisplayRaster

/-! ## Operations on signed words -/

/-- The signed word that holds a value, if there is one. -/
def word? (n : Int) : Option Int32 :=
  if -2147483648 ≤ n ∧ n ≤ 2147483647 then some (Int32.ofInt n) else none

/-- The remainder of a division of words.  The quotient has to be a word as well. -/
def remainderWord? (a b : Int32) : Option Int32 := do
  let _ ← word? (← quotient? a.toInt b.toInt)
  word? (← remainder? a.toInt b.toInt)

theorem exists_word {n : Int} (hlo : -2147483648 ≤ n) (hhi : n ≤ 2147483647) :
    ∃ w, word? n = some w ∧ w.toInt = n :=
  ⟨Int32.ofInt n, if_pos ⟨hlo, hhi⟩, Int32.toInt_ofInt_of_le hlo (by omega)⟩

theorem exists_remainderWord (a : Int32) {b : Int32} (hb : 0 < b.toInt) :
    ∃ w, remainderWord? a b = some w ∧ w.toInt = a.toInt % b.toInt := by
  have hlo := Int32.le_toInt a
  have hhi := Int32.toInt_lt a
  have hlimit := Int32.toInt_lt b
  have hmin : -2147483648 ≤ a.toInt / b.toInt := (Int.le_ediv_iff_mul_le hb).2 (by omega)
  have hmax : a.toInt / b.toInt < 2147483648 := (Int.ediv_lt_iff_lt_mul hb).2 (by omega)
  have hnonneg := Int.emod_nonneg a.toInt hb.ne'
  have hlt := Int.emod_lt_of_pos a.toInt hb
  obtain ⟨q, hq, -⟩ := exists_word hmin (by omega)
  obtain ⟨r, hr, hrval⟩ := exists_word (n := a.toInt % b.toInt) (by omega) (by omega)
  refine ⟨r, ?_, hrval⟩
  simp only [remainderWord?, quotient?_eq hb.ne', remainder?_eq hb.ne', Option.bind_eq_bind,
    Option.bind_some, hq, hr]

namespace AddressMode

/-! ## Addressing in signed words -/

/-- The texel that a coordinate stands for in a period of `n` texels. -/
def foldWordIn? (mode : AddressMode) (coord n : Int32) : Option Int32 :=
  match mode with
  | .clamp => do
    let last ← word? (n.toInt - 1)
    word? (← clamp? 0 last.toInt coord.toInt)
  | .wrap => remainderWord? coord n
  | .mirror => do
    let both ← word? (n.toInt * 2)
    let r ← remainderWord? coord both
    if r < n then some r
    else
      let last ← word? (both.toInt - 1)
      word? (last.toInt - r.toInt)

/-- The texel that a coordinate stands for, in signed words throughout. -/
def foldWord? (mode : AddressMode) (coord : Int32) (size : UInt32) : Option Int32 := do
  mode.foldWordIn? coord (← word? (← period? size))

variable (size : UInt32)

theorem period_le : period size ≤ 1073741823 := by
  rw [period]
  omega

/-- No operation on the way to a texel overflows. -/
theorem exists_foldWordIn (mode : AddressMode) (c : Int32) {n : Int32}
    (hn : n.toInt = period size) :
    ∃ w, mode.foldWordIn? c n = some w ∧ w.toInt = mode.fold c.toInt size := by
  have hpos := period_pos size
  have hle := period_le size
  cases mode with
  | clamp =>
    rw [natCast_fold_clamp]
    obtain ⟨last, hlast, hlastval⟩ := exists_word (n := n.toInt - 1) (by omega) (by omega)
    obtain ⟨w, hw, hwval⟩ :=
      exists_word (n := max 0 (min c.toInt last.toInt)) (by omega) (by omega)
    refine ⟨w, ?_, by omega⟩
    have hclamp := clamp?_eq (show 0 ≤ last.toInt by omega) c.toInt
    simp only [foldWordIn?, Option.bind_eq_bind, hlast, Option.bind_some, hclamp, hw]
  | wrap =>
    rw [natCast_fold_wrap, ← hn]
    exact exists_remainderWord c (by omega)
  | mirror =>
    obtain ⟨both, hboth, hbothval⟩ := exists_word (n := n.toInt * 2) (by omega) (by omega)
    obtain ⟨r, hr, hrval⟩ := exists_remainderWord c (b := both) (by omega)
    have hspan : (2 * period size : Int) = both.toInt := by omega
    rw [natCast_fold_mirror, hspan, ← hrval]
    have hnonneg := Int.emod_nonneg c.toInt (show both.toInt ≠ 0 by omega)
    have hlt := Int.emod_lt_of_pos c.toInt (show 0 < both.toInt by omega)
    simp only [foldWordIn?, Option.bind_eq_bind, hboth, Option.bind_some, hr,
      Int32.lt_iff_toInt_lt]
    split
    · exact ⟨r, rfl, by omega⟩
    · obtain ⟨last, hlast, hlastval⟩ := exists_word (n := both.toInt - 1) (by omega) (by omega)
      obtain ⟨w, hw, hwval⟩ := exists_word (n := last.toInt - r.toInt) (by omega) (by omega)
      refine ⟨w, ?_, by omega⟩
      simp only [hlast, Option.bind_some, hw]

theorem exists_foldWord (mode : AddressMode) (c : Int32) :
    ∃ w, mode.foldWord? c size = some w ∧ w.toInt = mode.fold c.toInt size := by
  have hpos := period_pos size
  have hle := period_le size
  obtain ⟨n, hn, hnval⟩ := exists_word (n := period size) (by omega) (by omega)
  simp only [foldWord?, period?_eq, Option.bind_eq_bind, Option.bind_some, hn]
  exact exists_foldWordIn size mode c hnval

/-! ## Repetition -/

/-- The texel of the period that is congruent to the coordinate. -/
theorem eq_fold_wrap_iff (c : Int) (k : Fin (period size)) :
    k.val = wrap.fold c size ↔ (k.val : Int) ≡ c [ZMOD period size] := by
  have hk := k.isLt
  have hself : (k.val : Int) % period size = k.val := Int.emod_eq_of_lt (by omega) (by omega)
  rw [← Int.natCast_inj, natCast_fold_wrap, Int.ModEq, hself]

/-! ## Reflection -/

/-- Counted backwards from `-1`, a coordinate has its remainder counted from the other end. -/
theorem reflected_emod {m : Int} (hm : 0 < m) (c : Int) : (-1 - c) % m = m - 1 - c % m := by
  have hnonneg := Int.emod_nonneg c hm.ne'
  have hlt := Int.emod_lt_of_pos c hm
  have hdivision := Int.emod_add_mul_ediv c m
  have hreflected : -1 - c = m - 1 - c % m + m * (-(c / m) - 1) := by
    rw [mul_sub, mul_neg, mul_one]
    omega
  rw [hreflected, Int.add_mul_emod_self_left, Int.emod_eq_of_lt (by omega) (by omega)]

/-- Which coordinates share a texel. -/
theorem fold_mirror_eq_iff (a b : Int) :
    mirror.fold a size = mirror.fold b size ↔
      a ≡ b [ZMOD 2 * period size] ∨ a ≡ -1 - b [ZMOD 2 * period size] := by
  have hpos := period_pos size
  have hreflected := reflected_emod (show 0 < (2 * period size : Int) by omega) b
  rw [← Int.natCast_inj, natCast_fold_mirror, natCast_fold_mirror, Int.ModEq, Int.ModEq,
    hreflected]
  omega

theorem periodic_fold_mirror : Function.Periodic (mirror.fold · size) (2 * period size) :=
  fun c ↦ (fold_mirror_eq_iff size _ c).2 (.inl (Int.add_emod_right c _))

/-- Reflection at the near edge. -/
theorem fold_mirror_near (c : Int) : mirror.fold (-1 - c) size = mirror.fold c size :=
  (fold_mirror_eq_iff size _ c).2 (.inr rfl)

/-- Reflection at the far edge. -/
theorem fold_mirror_far (c : Int) :
    mirror.fold (2 * period size - 1 - c) size = mirror.fold c size := by
  have hshift : 2 * period size - 1 - c = -1 - c + 2 * period size := by omega
  rw [hshift]
  exact (fold_mirror_eq_iff size _ c).2 (.inr (Int.add_emod_right _ _))

/-! ## The nearest texel -/

theorem fold_clamp_le {a b : Int} (h : a ≤ b) : clamp.fold a size ≤ clamp.fold b size := by
  have ha := natCast_fold_clamp a size
  have hb := natCast_fold_clamp b size
  omega

/-- No other texel is as near to a coordinate as the one that it is clamped to. -/
theorem eq_fold_clamp_iff (c : Int) (k : Fin (period size)) :
    k.val = clamp.fold c size ↔
      ∀ j : Fin (period size), |(k.val : Int) - c| ≤ |(j.val : Int) - c| := by
  have hk := k.isLt
  have hfold := natCast_fold_clamp c size
  simp only [abs_eq_max_neg]
  constructor
  · intro h j
    have hj := j.isLt
    omega
  · intro h
    have hnear := h ⟨clamp.fold c size, fold_lt clamp c size⟩
    dsimp only at hnear
    omega

/-! ## All modes -/

/-- What addressing does on an axis of `size` texels with a period of `n`. -/
structure FoldsInto (n : Nat) : Prop where
  /-- In signed words nothing overflows on the way to the texel. -/
  fits (mode : AddressMode) (c : Int32) :
    ∃ w, mode.foldWord? c size = some w ∧ w.toInt = mode.fold c.toInt size
  lt (mode : AddressMode) (c : Int) : mode.fold c size < n
  fixes (mode : AddressMode) (k : Fin n) : mode.fold k.val size = k.val
  /-- Repetition takes the congruent texel. -/
  repeats (c : Int) (k : Fin n) : k.val = wrap.fold c size ↔ (k.val : Int) ≡ c [ZMOD n]
  periodic : Function.Periodic (mirror.fold · size) (2 * n)
  reflects_near (c : Int) : mirror.fold (-1 - c) size = mirror.fold c size
  reflects_far (c : Int) : mirror.fold (2 * n - 1 - c) size = mirror.fold c size
  monotone {a b : Int} (h : a ≤ b) : clamp.fold a size ≤ clamp.fold b size
  /-- Clamping takes the nearest texel. -/
  nearest (c : Int) (k : Fin n) :
    k.val = clamp.fold c size ↔ ∀ j : Fin n, |(k.val : Int) - c| ≤ |(j.val : Int) - c|

/-- **Addressing folds every coordinate into its period.** -/
theorem foldsInto_period : FoldsInto size (max 1 (min size.toNat (2 ^ 30 - 1))) where
  fits := exists_foldWord size
  lt mode c := fold_lt mode c size
  fixes mode k := by
    have hk : k.val < period size := k.isLt
    rw [fold_of_lt_period mode (by omega) (by omega), Int.toNat_natCast]
  repeats := eq_fold_wrap_iff size
  periodic := periodic_fold_mirror size
  reflects_near := fold_mirror_near size
  reflects_far := fold_mirror_far size
  monotone := fold_clamp_le size
  nearest := eq_fold_clamp_iff size

/-- The least word in the longest period. -/
example : mirror.foldWord? Int32.minValue 0xFFFFFFFF = some 1 := by decide

end AddressMode

end DisplayRaster
