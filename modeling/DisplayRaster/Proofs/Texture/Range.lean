import DisplayRaster.Proofs.Texture.Middle
import DisplayRaster.Proofs.Texture.Weights

/-!
# Coordinates in 128 bits

Texture coordinates are made and sampled in signed 128-bit words.  `coordSteps` and `sampleSteps`
list the values that come up on the way, without those sums of a perspective coordinate that are
checked and made again with shorter weights where they do not fit.  With weights that add up to at
most `2 ^ 53` everything fits, the second attempt always succeeds (`isSome_weighted`), and the one
place where the word is too short is the doubling of bilinear filtering (`allFit_splitSteps`): the
checks let a coordinate through that fits, and twice the coordinate may not.

Where the doubled coordinate fits, the sample is the one that exact arithmetic gives
(`sample_eq_exact`).
-/

set_option autoImplicit false

namespace DisplayRaster

namespace TextureCoord

/-- Each value of a list fits in a signed 128-bit word. -/
def AllFit (l : List Int) : Prop := ∀ n ∈ l, fits n = true

instance (l : List Int) : Decidable (AllFit l) := inferInstanceAs (Decidable (∀ n ∈ l, _))

theorem fits_of_abs_le {n : Int} (h : |n| ≤ 2 ^ 126) : fits n = true := by
  rw [abs_le] at h
  rw [fits_iff]
  omega

theorem sumFits_iff {terms : Corners Int} :
    sumFits terms = true ↔ AllFit (Corners.sumSteps terms) := by
  simp [sumFits, AllFit, Corners.sumSteps, and_assoc]

/-- Sums of small values with weights that add up to little fit. -/
theorem sumFits_of_le {w values : Corners Int} (hw : w.All (0 ≤ ·)) {bound : Int}
    (hvalues : values.All fun v ↦ |v| ≤ bound) (hle : w.sum * bound ≤ 2 ^ 126) :
    sumFits (w.zipWith (· * ·) values) = true :=
  sumFits_iff.2 fun _ hn ↦ fits_of_abs_le ((Corners.abs_le_of_mem_sumSteps hw hvalues hn).trans hle)

/-! ## Perspective weights -/

theorem factor_le {q n : Nat} (hq : q ≤ n) (hn : 1 ≤ n) : factor q ≤ n := by
  rw [factor]
  split
  · exact hn
  · exact hq

/-- The scaled reciprocals of weights of at most `n`. -/
theorem reciprocals_mem {q : Corners Nat} {n : Nat} (hq : q.All (· ≤ n)) (hn : 1 ≤ n) :
    (reciprocals q).All fun r : Int ↦ 0 ≤ r ∧ r ≤ n * n := by
  have hproduct (p : Nat) {q q' : Nat} (h : q ≤ n) (h' : q' ≤ n) :
      (0 : Int) ≤ (if p = 0 then 0 else (factor q : Int) * factor q') ∧
        (if p = 0 then 0 else (factor q : Int) * factor q') ≤ (n : Int) * n := by
    have hle : (factor q : Int) * factor q' ≤ n * n := by
      exact_mod_cast Nat.mul_le_mul (factor_le h hn) (factor_le h' hn)
    split
    · exact ⟨le_refl 0, by positivity⟩
    · exact ⟨by positivity, hle⟩
  exact ⟨hproduct _ hq.b hq.c, hproduct _ hq.a hq.c, hproduct _ hq.a hq.b⟩

theorem reduced_le {q r : Corners Nat} (h : reduced q = some r) {n : Nat} (hq : q.All (· ≤ n)) :
    r.All (· ≤ n) := by
  rw [reduced] at h
  split at h
  · cases h
  · cases h
    exact ⟨(Nat.div_le_self _ _).trans hq.a, (Nat.div_le_self _ _).trans hq.b,
      (Nat.div_le_self _ _).trans hq.c⟩

/-- Sixteen bits are left of the weights for the second attempt. -/
theorem truncated_le (q : Corners Nat) : (truncated q).All (· ≤ 2 ^ 16) := by
  have htop {top p : Nat} (hp : p ≤ top) :
      p >>> (if top = 0 then 0 else top.log2 + 1 - 16) ≤ 2 ^ 16 := by
    rw [Nat.shiftRight_eq_div_pow]
    split
    · omega
    · by_cases hbits : top.log2 + 1 ≤ 16
      · have hlt := Nat.lt_log2_self (n := top)
        have hpow := Nat.pow_le_pow_right (show 0 < 2 by omega) hbits
        exact (Nat.div_le_self _ _).trans (by omega)
      · have hlt := Nat.lt_log2_self (n := top)
        have hsplit : 2 ^ (top.log2 + 1) = 2 ^ 16 * 2 ^ (top.log2 + 1 - 16) := by
          rw [← Nat.pow_add]
          congr 1
          omega
        exact (Nat.div_lt_of_lt_mul (by rw [Nat.mul_comm, ← hsplit]; omega)).le
  have hcut {p : Nat} (hp : p ≤ max (max q.a q.b) q.c) :
      (if p = 0 then 0
        else max (p >>> (if max (max q.a q.b) q.c = 0 then 0
          else (max (max q.a q.b) q.c).log2 + 1 - 16)) 1) ≤ 2 ^ 16 := by
    have h := htop hp
    split
    · omega
    · omega
  exact ⟨hcut (by omega), hcut (by omega), hcut (by omega)⟩

/-! ## Coordinates -/

/-- A coordinate in words, with room to double its denominator and multiply it by 256. -/
structure Bounded (coord : TextureCoord) : Prop where
  den_pos : 0 < coord.den
  den_le : coord.den ≤ 2 ^ 118
  s_fits : fits coord.s = true
  t_fits : fits coord.t = true

theorem bounded_origin : origin.Bounded := ⟨by decide, by decide, by decide, by decide⟩

theorem zipWith_s (w : Corners Int) (v : Corners Vertex) :
    w.zipWith (fun w v ↦ w * v.s.toInt) v = w.zipWith (· * ·) (v.map fun v ↦ v.s.toInt) :=
  rfl

theorem zipWith_t (w : Corners Int) (v : Corners Vertex) :
    w.zipWith (fun w v ↦ w * v.t.toInt) v = w.zipWith (· * ·) (v.map fun v ↦ v.t.toInt) :=
  rfl

theorem toInt_all (f : Vertex → Int32) (v : Corners Vertex) :
    (v.map fun v ↦ (f v).toInt).All fun n ↦ |n| ≤ 2 ^ 31 := by
  refine Corners.All.map (fun v ↦ ?_) v
  have hle := Int32.le_toInt (f v)
  have hlt := Int32.toInt_lt (f v)
  rw [abs_le]
  omega

section

variable {w r : Corners Int} (hw : w.All (0 ≤ ·)) {bound : Int}
  (hr : r.All fun r ↦ 0 ≤ r ∧ r ≤ bound)

include hw hr

/-- Perspective weights are not negative and have a bounded sum. -/
theorem zipWith_nonneg : (w.zipWith (· * ·) r).All (0 ≤ ·) :=
  ⟨mul_nonneg hw.a hr.a.1, mul_nonneg hw.b hr.b.1, mul_nonneg hw.c hr.c.1⟩

theorem sum_zipWith_le : (w.zipWith (· * ·) r).sum ≤ w.sum * bound :=
  (Corners.weightedSum_mem hw hr).2

end

theorem fits_sum {terms : Corners Int} (h : sumFits terms = true) : fits terms.sum = true := by
  simp only [sumFits, Bool.and_eq_true] at h
  exact h.2

/-- An attempt that succeeds gives weighted sums that fit, or the origin if nothing has weight. -/
theorem eq_of_weighted {w r : Corners Int} {v : Corners Vertex} {coord : TextureCoord}
    (h : weighted w v r = some coord) :
    (w.zipWith (· * ·) r).sum = 0 ∧ coord = origin ∨
      (w.zipWith (· * ·) r).sum ≠ 0 ∧ fits coord.s = true ∧ fits coord.t = true ∧
        coord = ⟨weightedSum (w.zipWith (· * ·) r) (v.map fun v ↦ v.s.toInt),
          weightedSum (w.zipWith (· * ·) r) (v.map fun v ↦ v.t.toInt),
          (w.zipWith (· * ·) r).sum⟩ := by
  rw [weighted] at h
  split at h
  · next hfits =>
    simp only [Bool.and_eq_true] at hfits
    split at h
    · next hzero =>
      cases h
      exact .inl ⟨hzero, rfl⟩
    · next hne =>
      cases h
      exact .inr ⟨hne, fits_sum hfits.1.2, fits_sum hfits.2, rfl⟩
  · cases h

/-- What comes out of an attempt is bounded. -/
theorem bounded_weighted {w r : Corners Int} (hw : w.All (0 ≤ ·)) (hsum : w.sum ≤ 2 ^ 53)
    (hr : r.All fun r ↦ 0 ≤ r ∧ r ≤ 2 ^ 64) {v : Corners Vertex} {coord : TextureCoord}
    (h : weighted w v r = some coord) : coord.Bounded := by
  have hle := sum_zipWith_le hw hr
  rcases eq_of_weighted h with ⟨-, rfl⟩ | ⟨hne, hs, ht, rfl⟩
  · exact bounded_origin
  · exact ⟨Corners.sum_pos_of_ne (zipWith_nonneg hw hr) hne, hle.trans (by omega), hs, ht⟩

section

variable {w r : Corners Int} (hw : w.All (0 ≤ ·)) {bound : Int}
  (hr : r.All fun r ↦ 0 ≤ r ∧ r ≤ bound) {v : Corners Vertex} {limit : Int}
  (hs : (v.map fun v ↦ v.s.toInt).All fun n ↦ |n| ≤ limit)
  (ht : (v.map fun v ↦ v.t.toInt).All fun n ↦ |n| ≤ limit)

include hw hr hs ht

/-- **An attempt succeeds** if weights, reciprocals and coordinates are small enough together. -/
theorem isSome_weighted (hlimit : 1 ≤ limit) (hle : w.sum * bound * limit ≤ 2 ^ 126) :
    (weighted w v r).isSome = true := by
  have hpos := zipWith_nonneg hw hr
  have hsum := sum_zipWith_le hw hr
  have hbound : 0 ≤ bound := hr.a.1.trans hr.a.2
  have hnonneg : 0 ≤ w.sum * bound := by
    obtain ⟨ha, hb, hc⟩ := hw
    exact mul_nonneg (add_nonneg (add_nonneg ha hb) hc) hbound
  have habs : r.All fun r ↦ |r| ≤ bound := by
    have h {r : Int} (h : 0 ≤ r ∧ r ≤ bound) : |r| ≤ bound := by rw [abs_of_nonneg h.1]; exact h.2
    exact ⟨h hr.a, h hr.b, h hr.c⟩
  have hmul : (w.zipWith (· * ·) r).sum * limit ≤ w.sum * bound * limit :=
    mul_le_mul_of_nonneg_right hsum (by omega)
  have hweights := sumFits_of_le hw habs ((le_mul_of_one_le_right hnonneg hlimit).trans hle)
  have hsFits := sumFits_of_le hpos hs (hmul.trans hle)
  have htFits := sumFits_of_le hpos ht (hmul.trans hle)
  rw [weighted]
  simp only [zipWith_s, zipWith_t, hweights, hsFits, htFits, Bool.and_self, if_true]
  split <;> rfl

/-- What comes out of an attempt is as small as what goes in. -/
theorem abs_weighted_le {coord : TextureCoord} (h : weighted w v r = some coord) :
    |coord.s| ≤ w.sum * bound * limit ∧ |coord.t| ≤ w.sum * bound * limit := by
  have hpos := zipWith_nonneg hw hr
  have hlimit : 0 ≤ limit := (abs_nonneg _).trans hs.a
  have hmul : (w.zipWith (· * ·) r).sum * limit ≤ w.sum * bound * limit :=
    mul_le_mul_of_nonneg_right (sum_zipWith_le hw hr) hlimit
  have hsLe := (Corners.abs_le_of_mem_sumSteps hpos hs Corners.sum_mem_sumSteps).trans hmul
  have htLe := (Corners.abs_le_of_mem_sumSteps hpos ht Corners.sum_mem_sumSteps).trans hmul
  rcases eq_of_weighted h with ⟨-, rfl⟩ | ⟨-, -, -, rfl⟩
  · have hnonneg := (abs_nonneg _).trans hsLe
    exact ⟨hnonneg, hnonneg⟩
  · exact ⟨hsLe, htLe⟩

theorem exists_weighted (hlimit : 1 ≤ limit) (hle : w.sum * bound * limit ≤ 2 ^ 126) :
    ∃ coord, weighted w v r = some coord ∧
      |coord.s| ≤ w.sum * bound * limit ∧ |coord.t| ≤ w.sum * bound * limit := by
  obtain ⟨coord, hcoord⟩ := Option.isSome_iff_exists.1 (isSome_weighted hw hr hs ht hlimit hle)
  exact ⟨coord, hcoord, abs_weighted_le hw hr hs ht hcoord⟩

end

/-! ## Attempts -/

section

variable {w : Corners Int} {v : Corners Vertex} {coord : TextureCoord}

/-- Without perspective weights there is nothing to attempt. -/
theorem perspective_of_none (h : reduced (v.map fun v ↦ v.q.toNat) = none) :
    perspective w v = origin := by
  rw [perspective, h]

variable {q : Corners Nat} (hq : reduced (v.map fun v ↦ v.q.toNat) = some q)

include hq

theorem perspective_of_first (hfirst : weighted w v (reciprocals q) = some coord) :
    perspective w v = coord := by
  simp only [perspective, hq, hfirst]

theorem perspective_of_second (hfirst : weighted w v (reciprocals q) = none)
    (hsecond : weighted w v (reciprocals (truncated q)) = some coord) :
    perspective w v = coord := by
  simp only [perspective, hq, hfirst, hsecond, Option.getD_some]

end

/-- A coordinate is the origin or comes from one of the two attempts. -/
theorem perspective_cases (w : Corners Int) (v : Corners Vertex) :
    perspective w v = origin ∨ ∃ q r, reduced (v.map fun v ↦ v.q.toNat) = some q ∧
      (r = reciprocals q ∨ r = reciprocals (truncated q)) ∧
      weighted w v r = some (perspective w v) := by
  cases hq : reduced (v.map fun v ↦ v.q.toNat) with
  | none => exact .inl (perspective_of_none hq)
  | some q =>
    cases hfirst : weighted w v (reciprocals q) with
    | some coord =>
      refine .inr ⟨q, reciprocals q, rfl, .inl rfl, ?_⟩
      rw [perspective_of_first hq hfirst, hfirst]
    | none =>
      cases hsecond : weighted w v (reciprocals (truncated q)) with
      | some coord =>
        refine .inr ⟨q, reciprocals (truncated q), rfl, .inr rfl, ?_⟩
        rw [perspective_of_second hq hfirst hsecond, hsecond]
      | none =>
        left
        simp only [perspective, hq, hfirst, hsecond, Option.getD_none]

/-! ## Halves of texels -/

/-- The values on the way from a coordinate to its texel. -/
def nearestSteps (coord : TextureCoord) : List Int := [coord.s / coord.den, coord.t / coord.den]

/-- The values on the way from one axis of a coordinate to its whole number of texels and its
fraction, for exact arithmetic. -/
def splitSteps (num den : Int) : List Int :=
  let shifted := num * 2 - den
  let whole := shifted / (den * 2)
  let rest := shifted - whole * (den * 2)
  [den * 2, num * 2, shifted, whole, whole * (den * 2), rest, rest * 256, rest * 256 / (den * 2)]

/-- The values on the way from a coordinate to its texels. -/
def sampleSteps (filter : TextureFilter) (coord : TextureCoord) : List Int :=
  match filter with
  | .nearest => coord.nearestSteps
  | .bilinear => splitSteps coord.s coord.den ++ splitSteps coord.t coord.den

/-- The numerator can be doubled, and half a texel taken off, within the word. -/
structure Doubles (num den : Int) : Prop where
  doubled : fits (num * 2) = true
  shifted : fits (num * 2 - den) = true
  multiple : fits ((num * 2 - den) / (den * 2) * (den * 2)) = true

theorem doubles_of_abs_le {num den : Int} (hpos : 0 < den) (hden : den ≤ 2 ^ 118)
    (hnum : |num| ≤ 2 ^ 116) : Doubles num den := by
  rw [abs_le] at hnum
  have hle := Int.ediv_mul_le (num * 2 - den) (show den * 2 ≠ 0 by omega)
  have hlt := Int.lt_ediv_add_one_mul_self (num * 2 - den) (show 0 < den * 2 by omega)
  rw [add_mul, one_mul] at hlt
  refine ⟨?_, ?_, ?_⟩
  · rw [fits_iff]
    omega
  · rw [fits_iff]
    omega
  · rw [fits_iff]
    omega

/-- A value is no further from zero than its multiples. -/
theorem fits_of_fits_mul {n k : Int} (hk : 0 < k) (h : fits (n * k) = true) : fits n = true := by
  rw [fits_iff] at h ⊢
  rcases le_total 0 n with hn | hn
  · have hle := mul_le_mul_of_nonneg_left (show 1 ≤ k by omega) hn
    omega
  · have hle := mul_le_mul_of_nonpos_left (show 1 ≤ k by omega) hn
    omega

/-- **Only the doubling can leave the word** on one axis of bilinear filtering. -/
theorem allFit_splitSteps {num den : Int} (hpos : 0 < den) (hden : den ≤ 2 ^ 118) :
    AllFit (splitSteps num den) ↔ Doubles num den := by
  constructor
  · intro h
    exact ⟨h _ (by simp [splitSteps]), h _ (by simp [splitSteps]), h _ (by simp [splitSteps])⟩
  · rintro ⟨hdoubled, hshifted, hmultiple⟩
    have hwhole := fits_of_fits_mul (show 0 < den * 2 by omega) hmultiple
    have hle := Int.ediv_mul_le (num * 2 - den) (show den * 2 ≠ 0 by omega)
    have hlt := Int.lt_ediv_add_one_mul_self (num * 2 - den) (show 0 < den * 2 by omega)
    rw [add_mul, one_mul] at hlt
    generalize hrest : num * 2 - den - (num * 2 - den) / (den * 2) * (den * 2) = rest
    have hmem : 0 ≤ rest ∧ rest < den * 2 := by omega
    have hfraction := Int.ediv_mul_le (rest * 256) (show den * 2 ≠ 0 by omega)
    have hnonneg : 0 ≤ rest * 256 / (den * 2) := Int.ediv_nonneg (by omega) (by omega)
    have hself := Int.ediv_le_self (den * 2) (show 0 ≤ rest * 256 by omega)
    intro n hn
    simp only [splitSteps, hrest, List.mem_cons, List.not_mem_nil, or_false] at hn
    rcases hn with rfl | rfl | rfl | rfl | rfl | rfl | rfl | rfl
    · rw [fits_iff]
      omega
    · exact hdoubled
    · exact hshifted
    · exact hwhole
    · exact hmultiple
    · rw [fits_iff]
      omega
    · rw [fits_iff]
      omega
    · rw [fits_iff]
      omega

/-- Bilinear filtering stays in its words iff both axes can be doubled. -/
theorem Bounded.bilinearSteps_fit {coord : TextureCoord} (h : coord.Bounded) :
    AllFit (coord.sampleSteps .bilinear) ↔
      Doubles coord.s coord.den ∧ Doubles coord.t coord.den := by
  rw [← allFit_splitSteps h.den_pos h.den_le, ← allFit_splitSteps h.den_pos h.den_le]
  exact List.forall_mem_append

/-- A quotient is no further from zero than what it divides. -/
theorem fits_ediv {num den : Int} (hpos : 0 < den) (h : fits num = true) :
    fits (num / den) = true := by
  rw [fits_iff] at h ⊢
  rcases le_total 0 num with hn | hn
  · have hnonneg := Int.ediv_nonneg hn hpos.le
    have hle := Int.ediv_le_self den hn
    omega
  · have hle := Int.ediv_nonpos_of_nonpos_of_neg hn hpos
    have hlt := Int.lt_ediv_add_one_mul_self num hpos
    rcases hle.eq_or_lt with heq | hneg
    · omega
    · have hmul := mul_le_mul_of_nonpos_left (show 1 ≤ den by omega)
        (show num / den + 1 ≤ 0 by omega)
      omega

/-- The texels that nearest filtering looks for are in words. -/
theorem Bounded.nearestSteps_fit {coord : TextureCoord} (h : coord.Bounded) :
    AllFit coord.nearestSteps := by
  intro n hn
  simp only [nearestSteps, List.mem_cons, List.not_mem_nil, or_false] at hn
  rcases hn with rfl | rfl
  · exact fits_ediv h.den_pos h.s_fits
  · exact fits_ediv h.den_pos h.t_fits

/-! ## From weights to coordinates -/

/-- The perspective weights of vertices are words. -/
theorem toNat_q_all (v : Corners Vertex) : (v.map fun v ↦ v.q.toNat).All (· ≤ 2 ^ 32) :=
  Corners.All.map (fun v ↦ v.q.toNat_lt.le) v

/-- The reciprocals of weights without their common factor. -/
theorem reciprocals_reduced_mem {v : Corners Vertex} {q : Corners Nat}
    (hq : reduced (v.map fun v ↦ v.q.toNat) = some q) :
    (reciprocals q).All fun r : Int ↦ 0 ≤ r ∧ r ≤ 2 ^ 64 :=
  reciprocals_mem (reduced_le hq (toNat_q_all v)) (by omega)

/-- The reciprocals of weights of sixteen bits. -/
theorem reciprocals_truncated_mem (q : Corners Nat) :
    (reciprocals (truncated q)).All fun r : Int ↦ 0 ≤ r ∧ r ≤ 2 ^ 32 :=
  reciprocals_mem (truncated_le q) (by omega)

section

variable {w : Corners Int} (hw : w.All (0 ≤ ·)) (hsum : w.sum ≤ 2 ^ 53)

include hw hsum

theorem abs_affine_le (f : Vertex → Int32) (v : Corners Vertex) {n : Int}
    (hn : n ∈ Corners.sumSteps (w.zipWith (· * ·) (v.map fun v ↦ (f v).toInt))) :
    |n| ≤ 2 ^ 116 :=
  (Corners.abs_le_of_mem_sumSteps hw (toInt_all f v) hn).trans (by omega)

/-- **Where the first attempt at a perspective coordinate fails, the second succeeds**, and its
coordinate is small. -/
theorem perspective_of_retry {v : Corners Vertex} {q : Corners Nat}
    (hq : reduced (v.map fun v ↦ v.q.toNat) = some q)
    (hfirst : weighted w v (reciprocals q) = none) :
    weighted w v (reciprocals (truncated q)) = some (perspective w v) ∧
      |(perspective w v).s| ≤ 2 ^ 116 ∧ |(perspective w v).t| ≤ 2 ^ 116 := by
  have hs := toInt_all Vertex.s v
  have ht := toInt_all Vertex.t v
  have hr := reciprocals_truncated_mem q
  obtain ⟨coord, hcoord, hsLe, htLe⟩ := exists_weighted hw hr hs ht (by omega) (by omega)
  rw [perspective_of_second hq hfirst hcoord]
  exact ⟨hcoord, hsLe.trans (by omega), htLe.trans (by omega)⟩

/-- A coordinate is bounded, whichever attempt it comes from. -/
theorem bounded_ofWeights (hpos : 0 < w.sum) (projection : Projection) (v : Corners Vertex) :
    (ofWeights projection w v w.sum).Bounded := by
  cases projection with
  | affine =>
    refine ⟨hpos, hsum.trans (by omega), ?_, ?_⟩
    · exact fits_of_abs_le
        ((abs_affine_le hw hsum Vertex.s v Corners.sum_mem_sumSteps).trans (by omega))
    · exact fits_of_abs_le
        ((abs_affine_le hw hsum Vertex.t v Corners.sum_mem_sumSteps).trans (by omega))
  | perspective =>
    show (perspective w v).Bounded
    rcases perspective_cases w v with h | ⟨q, r, hq, hr, h⟩
    · rw [h]
      exact bounded_origin
    · refine bounded_weighted hw hsum ?_ h
      rcases hr with rfl | rfl
      · exact reciprocals_reduced_mem hq
      · obtain ⟨ha, hb, hc⟩ := reciprocals_truncated_mem q
        exact ⟨by omega, by omega, by omega⟩

end

end TextureCoord

/-! ## Exact samples -/

/-- The coordinate `num / den` less one half, in exact arithmetic. -/
def splitExact (num den : Int) : Int × Nat :=
  let shifted := num * 2 - den
  let whole := shifted / (den * 2)
  (saturate whole, ((shifted - whole * (den * 2)) * 256 / (den * 2)).toNat)

theorem splitHalf_eq_exact {num den : Int} (h : TextureCoord.Doubles num den) :
    splitHalf num den = splitExact num den := by
  rw [splitHalf, wrapped_eq_self h.shifted]
  rfl

section

variable {μ : Type} [Memory μ] (st : RenderState) (m : μ) (source : TexelSource)

/-- The four texels around a point, given by their whole numbers and fractions. -/
def tapsAround (s t : Int × Nat) : List Tap :=
  let tap (s t : Int) (weight : Nat) : Tap :=
    ⟨Color.ofPacked (texelFolded st m source s t), weight⟩
  [tap s.1 t.1 ((256 - s.2) * (256 - t.2)), tap (saturate (s.1 + 1)) t.1 (s.2 * (256 - t.2)),
    tap s.1 (saturate (t.1 + 1)) ((256 - s.2) * t.2),
    tap (saturate (s.1 + 1)) (saturate (t.1 + 1)) (s.2 * t.2)]

/-- The color of a texture at a coordinate, in exact arithmetic. -/
def sampleExact (coord : TextureCoord) : UInt16 :=
  match st.filter with
  | .nearest => sampleNearest st m source coord
  | .bilinear =>
    meanColor (tapsAround st m source (splitExact coord.s coord.den)
      (splitExact coord.t coord.den))

/-- **Words sample the exact texel** if nothing on the way leaves them. -/
theorem sample_eq_exact {coord : TextureCoord} (h : coord.Bounded)
    (hsteps : TextureCoord.AllFit (coord.sampleSteps st.filter)) :
    sample st m source coord = sampleExact st m source coord := by
  rw [sample, sampleExact]
  cases hfilter : st.filter with
  | nearest => rfl
  | bilinear =>
    rw [hfilter] at hsteps
    obtain ⟨hs, ht⟩ := h.bilinearSteps_fit.1 hsteps
    simp only
    rw [← splitHalf_eq_exact hs, ← splitHalf_eq_exact ht]
    rfl

end

end DisplayRaster
