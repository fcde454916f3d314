import DisplayRaster.Proofs.Texture.Mean
import Mathlib.Tactic.Ring

/-!
# Samples at the middle of a texel

Bilinear filtering takes half a texel off a coordinate before it looks for the four texels around
it.  At the middle of a texel this leaves no fraction, so the texel has all the weight, and both
filters show it as it is (`sample_of_middle`).  A mean of one texel is that texel, because packing
undoes unpacking (`Color.toPacked_ofPacked`).
-/

set_option autoImplicit false

namespace DisplayRaster

/-! ## Words -/

theorem saturate_eq_self {value : Int} (h : -2 ^ 31 ≤ value ∧ value < 2 ^ 31) :
    saturate value = value := by
  rw [saturate]
  omega

theorem TextureCoord.fits_iff {n : Int} : fits n = true ↔ -2 ^ 127 ≤ n ∧ n < 2 ^ 127 := by
  simp only [fits, Bool.and_eq_true, decide_eq_true_eq]
  omega

/-- A value that fits in the word is left alone. -/
theorem wrapped_eq_self {value : Int} (h : TextureCoord.fits value = true) :
    wrapped value = value := by
  rw [TextureCoord.fits_iff] at h
  exact Int.bmod_eq_of_le (by omega) (by omega)

/-! ## Middles -/

section

variable {num den i : Int}

theorem ediv_of_middle (hpos : 0 < den) (hnum : num * 2 = den * (2 * i + 1)) : num / den = i := by
  have hlo : i * den ≤ num := by nlinarith
  have hhi : num < (i + 1) * den := by nlinarith
  have h₁ := Int.le_ediv_of_mul_le hpos hlo
  have h₂ := Int.ediv_lt_of_lt_mul hpos hhi
  omega

/-- Half a texel less than the middle of a texel is its corner. -/
theorem splitHalf_of_middle (hpos : 0 < den) (hnum : num * 2 = den * (2 * i + 1))
    (hword : -2 ^ 31 ≤ i ∧ i < 2 ^ 31) (hfits : TextureCoord.fits (num * 2 - den) = true) :
    splitHalf num den = (i, 0) := by
  have hshifted : num * 2 - den = i * (den * 2) := by rw [hnum]; ring
  rw [hshifted] at hfits
  have hwhole : i * (den * 2) / (den * 2) = i := Int.mul_ediv_cancel _ (by omega)
  simp only [splitHalf, hshifted, wrapped_eq_self hfits, hwhole, saturate_eq_self hword, sub_self,
    zero_mul, Int.zero_ediv, Int.toNat_zero]

end

/-- The numbers `num` and `den` are a coordinate at the middle of the texel `i`. -/
structure IsMiddle (num den i : Int) : Prop where
  den_pos : 0 < den
  den_le : den ≤ 2 ^ 64
  num_eq : num * 2 = den * (2 * i + 1)
  word : -2 ^ 31 ≤ i ∧ i < 2 ^ 31

namespace IsMiddle

variable {num den i : Int}

theorem ediv_eq (h : IsMiddle num den i) : num / den = i := ediv_of_middle h.den_pos h.num_eq

theorem splitHalf_eq (h : IsMiddle num den i) : splitHalf num den = (i, 0) := by
  obtain ⟨hpos, hle, hnum, hword⟩ := h
  refine splitHalf_of_middle hpos hnum hword ?_
  rw [TextureCoord.fits_iff, hnum]
  constructor <;> nlinarith

end IsMiddle

/-- The mean of one texel is the texel. -/
theorem meanColor_single (value : UInt16) (t₁ t₂ t₃ : Color) :
    meanColor [⟨Color.ofPacked value, 65536⟩, ⟨t₁, 0⟩, ⟨t₂, 0⟩, ⟨t₃, 0⟩] = value := by
  refine meanColor_of_forall rfl fun tap htap hweight ↦ ?_
  simp only [List.mem_cons, List.not_mem_nil, or_false] at htap
  rcases htap with rfl | rfl | rfl | rfl
  · rfl
  · exact absurd rfl hweight
  · exact absurd rfl hweight
  · exact absurd rfl hweight

section

variable {μ : Type} [Memory μ] {coord : TextureCoord} {i j : Int}

/-- A coordinate without a fraction of half a texel shows one texel under both filters. -/
theorem sample_of_whole (hs : splitHalf coord.s coord.den = (i, 0))
    (hs' : saturate (coord.s / coord.den) = i) (ht : splitHalf coord.t coord.den = (j, 0))
    (ht' : saturate (coord.t / coord.den) = j) (st : RenderState) (m : μ) (source : TexelSource) :
    sample st m source coord = texelFolded st m source i j := by
  rw [sample]
  cases st.filter with
  | nearest => rw [sampleNearest, hs', ht']
  | bilinear =>
    simp only [bilinearTaps, hs, ht]
    exact meanColor_single _ _ _ _

/-- **At the middle of a texel** both filters show this texel. -/
theorem sample_of_middle (hs : IsMiddle coord.s coord.den i) (ht : IsMiddle coord.t coord.den j)
    (st : RenderState) (m : μ) (source : TexelSource) :
    sample st m source coord = texelFolded st m source i j := by
  refine sample_of_whole hs.splitHalf_eq ?_ ht.splitHalf_eq ?_ st m source
  · rw [hs.ediv_eq, saturate_eq_self hs.word]
  · rw [ht.ediv_eq, saturate_eq_self ht.word]

end

end DisplayRaster
