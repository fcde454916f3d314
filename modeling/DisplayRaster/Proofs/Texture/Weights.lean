import DisplayRaster.Texture.Coord
import Mathlib.Algebra.Order.Ring.Int
import Mathlib.Algebra.Order.Ring.Abs
import Mathlib.Tactic.GCongr
import Mathlib.Tactic.Linarith

/-!
# Weighted sums over corners

Whatever is interpolated is a sum over the corners of a weight times a value.  Weights that are not
negative keep such a sum between the least and the greatest value (`Corners.weightedSum_mem`), and
none of the terms and partial sums on the way to it is larger than the largest value times the sum
of the weights (`Corners.abs_le_of_mem_sumSteps`).  The mean that is left after a division by the
sum of the weights lies, rounded down, between the values that have weight
(`Corners.between_floor`).
-/

set_option autoImplicit false

namespace DisplayRaster

/-- A value lies between the least and the greatest of some values. -/
structure Between (values : List Int) (n : Int) : Prop where
  exists_le : ∃ a ∈ values, a ≤ n
  exists_ge : ∃ b ∈ values, n ≤ b

theorem Between.mono {l l' : List Int} {n : Int} (h : Between l n) (hsub : l ⊆ l') :
    Between l' n := by
  obtain ⟨⟨a, ha, hle⟩, ⟨b, hb, hge⟩⟩ := h
  exact ⟨⟨a, hsub ha, hle⟩, ⟨b, hsub hb, hge⟩⟩

namespace Corners

/-- A property that holds at each corner. -/
structure All {α : Type} (p : α → Prop) (v : Corners α) : Prop where
  a : p v.a
  b : p v.b
  c : p v.c

theorem All.map {α β : Type} {p : β → Prop} {f : α → β} (h : ∀ a, p (f a)) (v : Corners α) :
    (v.map f).All p :=
  ⟨h v.a, h v.b, h v.c⟩

theorem all_mem_toList {α : Type} (v : Corners α) : v.All (· ∈ v.toList) :=
  ⟨by simp [toList], by simp [toList], by simp [toList]⟩

variable {w values : Corners Int}

/-- Weights that are not negative have a positive sum unless they cancel. -/
theorem sum_pos_of_ne (hw : w.All (0 ≤ ·)) (hne : w.sum ≠ 0) : 0 < w.sum := by
  obtain ⟨ha, hb, hc⟩ := hw
  rw [sum] at hne ⊢
  omega

/-- A weighted sum lies between the values. -/
theorem weightedSum_mem (hw : w.All (0 ≤ ·)) {lo hi : Int}
    (hvalues : values.All fun v ↦ lo ≤ v ∧ v ≤ hi) :
    w.sum * lo ≤ TextureCoord.weightedSum w values ∧
      TextureCoord.weightedSum w values ≤ w.sum * hi := by
  obtain ⟨ha, hb, hc⟩ := hw
  obtain ⟨⟨hla, hua⟩, ⟨hlb, hub⟩, ⟨hlc, huc⟩⟩ := hvalues
  simp only [TextureCoord.weightedSum, zipWith, sum, add_mul]
  constructor
  · gcongr
  · gcongr

/-- The terms of a sum and the partial sums, in the order in which they come up. -/
def sumSteps (terms : Corners Int) : List Int :=
  [terms.a, terms.b, terms.c, terms.a + terms.b, terms.sum]

theorem sum_mem_sumSteps {terms : Corners Int} : terms.sum ∈ sumSteps terms := by
  simp [sumSteps]

/-- Nothing on the way to a weighted sum is larger than the largest value times the total weight. -/
theorem abs_le_of_mem_sumSteps (hw : w.All (0 ≤ ·)) {bound : Int}
    (hvalues : values.All fun v ↦ |v| ≤ bound) {n : Int}
    (hn : n ∈ sumSteps (w.zipWith (· * ·) values)) : |n| ≤ w.sum * bound := by
  obtain ⟨ha, hb, hc⟩ := hw
  obtain ⟨hva, hvb, hvc⟩ := hvalues
  have hbound : 0 ≤ bound := (abs_nonneg _).trans hva
  have hterm {w v : Int} (hw : 0 ≤ w) (hv : |v| ≤ bound) : |w * v| ≤ w * bound := by
    rw [abs_mul, abs_of_nonneg hw]
    gcongr
  have hta := hterm ha hva
  have htb := hterm hb hvb
  have htc := hterm hc hvc
  have hab := abs_add_le (w.a * values.a) (w.b * values.b)
  have habc := abs_add_le (w.a * values.a + w.b * values.b) (w.c * values.c)
  have h0a := mul_nonneg ha hbound
  have h0b := mul_nonneg hb hbound
  have h0c := mul_nonneg hc hbound
  simp only [sumSteps, zipWith, sum, List.mem_cons, List.not_mem_nil, or_false] at hn ⊢
  rw [add_mul, add_mul]
  rcases hn with rfl | rfl | rfl | rfl | rfl
  · linarith
  · linarith
  · linarith
  · linarith
  · linarith

/-! ## Means, rounded down -/

/-- A larger value at each corner that has weight makes a larger sum. -/
theorem weightedSum_le_weightedSum {w x y : Corners Int}
    (ha : w.a * x.a ≤ w.a * y.a) (hb : w.b * x.b ≤ w.b * y.b) (hc : w.c * x.c ≤ w.c * y.c) :
    TextureCoord.weightedSum w x ≤ TextureCoord.weightedSum w y := by
  simp only [TextureCoord.weightedSum, zipWith, sum]
  gcongr

/-- **A weighted mean, rounded down, lies between the values that have weight.**  They may be picked
from any list that has them all. -/
theorem between_floor {α : Type} {w : Corners Int} {v : Corners α} (hw : w.All (0 ≤ ·))
    (hsum : 0 < w.sum) {l : List α}
    (hmem : (w.zipWith Prod.mk v).All fun p ↦ p.1 ≠ 0 → p.2 ∈ l) (f : α → Int) :
    Between (l.map f) (TextureCoord.weightedSum w (v.map f) / w.sum) := by
  obtain ⟨ha, hb, hc⟩ := hw
  obtain ⟨hva, hvb, hvc⟩ := hmem
  generalize hn : TextureCoord.weightedSum w (v.map f) / w.sum = n
  have hconst (k : Int) : TextureCoord.weightedSum w ⟨k, k, k⟩ = w.sum * k := by
    simp only [TextureCoord.weightedSum, zipWith, sum, add_mul]
  -- a corner whose value is not in the list has no weight, so that any bound will do for it
  have hterm {w : Int} {u : α} {k k' : α → Int} (hw : 0 ≤ w) (hu : w ≠ 0 → u ∈ l)
      (h : ∀ u ∈ l, k u ≤ k' u) : w * k u ≤ w * k' u := by
    rcases hw.eq_or_lt with rfl | hpos
    · rw [zero_mul, zero_mul]
    · exact mul_le_mul_of_nonneg_left (h u (hu hpos.ne')) hw
  constructor
  · by_contra h
    push Not at h
    have hlt : ∀ u ∈ l, n + 1 ≤ f u := fun u hu ↦ h (f u) (List.mem_map_of_mem hu)
    have hle : w.sum * (n + 1) ≤ TextureCoord.weightedSum w (v.map f) := by
      rw [← hconst]
      exact weightedSum_le_weightedSum (hterm ha hva hlt) (hterm hb hvb hlt) (hterm hc hvc hlt)
    have hquot := Int.le_ediv_of_mul_le hsum ((mul_comm _ _).trans_le hle)
    omega
  · by_contra h
    push Not at h
    have hlt : ∀ u ∈ l, f u ≤ n - 1 := fun u hu ↦
      Int.le_sub_one_of_lt (h (f u) (List.mem_map_of_mem hu))
    have hle : TextureCoord.weightedSum w (v.map f) ≤ w.sum * (n - 1) := by
      rw [← hconst]
      exact weightedSum_le_weightedSum (hterm ha hva hlt) (hterm hb hvb hlt) (hterm hc hvc hlt)
    have hquot := Int.ediv_le_ediv hsum hle
    rw [Int.mul_ediv_cancel_left _ hsum.ne'] at hquot
    omega

end Corners

end DisplayRaster
