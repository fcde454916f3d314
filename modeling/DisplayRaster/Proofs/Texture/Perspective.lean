import DisplayRaster.Proofs.Texture.Range
import Mathlib.Algebra.Order.Field.Rat
import Mathlib.Data.Nat.Cast.Order.Field
import Mathlib.Tactic.FieldSimp
import Mathlib.Tactic.Ring
import Mathlib.Tactic.Positivity

/-!
# Perspective coordinates as means

Under perspective a corner counts with its weight over its perspective weight `q`, and a corner
whose `q` is zero does not count at all.  Nothing is ever divided by `q`, though: the reciprocals
are scaled by the product of all `q`, after their common factor has been taken out, and the scale
cancels in the mean.

* The first attempt at a coordinate gives the exact mean (`isPerspectiveMean_of_first`).
* Either attempt stays between the corners that take part (`betweenParts_perspective`): the second
  one cuts the `q` down, but never to zero.
* Only the ratios of the `q` matter (`perspective_scaled`), in both attempts, because the common
  factor is gone before either begins.
* With the same `q` at all corners nothing is left of it, and the coordinate is the affine one
  (`perspective_of_uniform`).
-/

set_option autoImplicit false

namespace DisplayRaster

namespace TextureCoord

/-! ## Perspective weights without their common factor -/

/-- Perspective weights are the reduced ones times their common factor. -/
theorem exists_mul_of_reduced {q r : Corners Nat} (h : reduced q = some r) :
    ∃ g, 0 < g ∧ q = r.map (g * ·) := by
  rw [reduced] at h
  split at h
  · cases h
  · next hg =>
    cases h
    have hdvd : (q.a.gcd q.b).gcd q.c ∣ q.a ∧ (q.a.gcd q.b).gcd q.c ∣ q.b :=
      Nat.dvd_gcd_iff.1 (Nat.gcd_dvd_left _ _)
    refine ⟨(q.a.gcd q.b).gcd q.c, Nat.pos_of_ne_zero hg, ?_⟩
    simp only [Corners.map, Nat.mul_div_cancel' hdvd.1, Nat.mul_div_cancel' hdvd.2,
      Nat.mul_div_cancel' (Nat.gcd_dvd_right _ _)]

theorem eq_zero_of_reduced_eq_none {q : Corners Nat} (h : reduced q = none) : q = ⟨0, 0, 0⟩ := by
  rw [reduced] at h
  split at h
  · next hg =>
    obtain ⟨hab, hc⟩ := Nat.gcd_eq_zero_iff.1 hg
    obtain ⟨ha, hb⟩ := Nat.gcd_eq_zero_iff.1 hab
    cases q
    simp only at ha hb hc
    rw [ha, hb, hc]
  · cases h

/-- A common factor has no effect. -/
theorem reduced_mul {k : Nat} (hk : 0 < k) (q : Corners Nat) :
    reduced (q.map (k * ·)) = reduced q := by
  have hgcd : ((k * q.a).gcd (k * q.b)).gcd (k * q.c) = k * (q.a.gcd q.b).gcd q.c := by
    rw [Nat.gcd_mul_left, Nat.gcd_mul_left]
  have hzero : k * (q.a.gcd q.b).gcd q.c = 0 ↔ (q.a.gcd q.b).gcd q.c = 0 := by
    rw [Nat.mul_eq_zero]
    omega
  simp only [reduced, Corners.map, hgcd, hzero, Nat.mul_div_mul_left _ _ hk]

/-! ## Reciprocals -/

/-- The reciprocal of a perspective weight, none for zero. -/
def reciprocal (q : Nat) : ℚ := if q = 0 then 0 else 1 / q

theorem reciprocal_eq_mul {g : Nat} (hg : 0 < g) (q : Nat) :
    reciprocal q = g * reciprocal (g * q) := by
  have hg' : (g : ℚ) ≠ 0 := by exact_mod_cast hg.ne'
  rcases q.eq_zero_or_pos with rfl | hq
  · simp [reciprocal]
  · have hq' : (q : ℚ) ≠ 0 := by exact_mod_cast hq.ne'
    rw [reciprocal, reciprocal, if_neg (Nat.mul_pos hg hq).ne', if_neg hq.ne']
    push_cast
    field_simp

/-- The product of the perspective weights that are not zero. -/
def product (q : Corners Nat) : Nat := factor q.a * factor q.b * factor q.c

theorem product_pos (q : Corners Nat) : 0 < product q := by
  have hpos (n : Nat) : 0 < factor n := by
    rw [factor]
    split <;> omega
  exact Nat.mul_pos (Nat.mul_pos (hpos _) (hpos _)) (hpos _)

/-- The scale of the reciprocals is the product of the perspective weights. -/
theorem reciprocals_eq (q : Corners Nat) :
    (reciprocals q).map (Int.cast : Int → ℚ) = q.map fun n ↦ product q * reciprocal n := by
  have hcorner {n x y : Nat} (hxy : x * factor n = y) :
      ((if n = 0 then 0 else (x : Int) : Int) : ℚ) = y * reciprocal n := by
    rw [reciprocal]
    split
    · rw [Int.cast_zero, mul_zero]
    · next hn =>
      have hn' : (n : ℚ) ≠ 0 := by exact_mod_cast hn
      rw [factor, if_neg hn] at hxy
      rw [← hxy]
      push_cast
      field_simp
  have ha : factor q.b * factor q.c * factor q.a = product q := by rw [product]; ring
  have hb : factor q.a * factor q.c * factor q.b = product q := by rw [product]; ring
  have hc : factor q.a * factor q.b * factor q.c = product q := rfl
  simp only [Corners.map, reciprocals, Corners.mk.injEq]
  exact ⟨by exact_mod_cast hcorner ha, by exact_mod_cast hcorner hb, by exact_mod_cast hcorner hc⟩

/-- The reciprocals of the reduced perspective weights are those of the weights themselves, all in
one scale. -/
theorem exists_scale {q r : Corners Nat} (h : reduced q = some r) :
    ∃ k : ℚ, 0 < k ∧ (reciprocals r).map (Int.cast : Int → ℚ) = q.map fun n ↦ k * reciprocal n := by
  obtain ⟨g, hg, rfl⟩ := exists_mul_of_reduced h
  have hpos := product_pos r
  refine ⟨product r * g, by positivity, ?_⟩
  rw [reciprocals_eq]
  simp only [Corners.map, mul_assoc, ← reciprocal_eq_mul hg]

/-! ## Exact means -/

/-- The sum of weight times value over perspective weight, over the corners whose perspective weight
is not zero. -/
def perspectiveSum (w : Corners Int) (v : Corners Vertex) (value : Vertex → Int) : ℚ :=
  (((w.zipWith Prod.mk v).toList.filter fun p ↦ p.2.q ≠ 0).map fun p ↦
    (p.1 * value p.2 : ℚ) / p.2.q.toNat).sum

theorem perspectiveSum_eq (w : Corners Int) (v : Corners Vertex) (value : Vertex → Int) :
    perspectiveSum w v value =
      w.a * value v.a * reciprocal v.a.q.toNat + w.b * value v.b * reciprocal v.b.q.toNat +
        w.c * value v.c * reciprocal v.c.q.toNat := by
  have hcons (w : Int) (v : Vertex) (l : List (Int × Vertex)) :
      ((((w, v) :: l).filter fun p ↦ p.2.q ≠ 0).map fun p ↦
        (p.1 * value p.2 : ℚ) / p.2.q.toNat).sum =
      w * value v * reciprocal v.q.toNat +
        ((l.filter fun p ↦ p.2.q ≠ 0).map fun p ↦ (p.1 * value p.2 : ℚ) / p.2.q.toNat).sum := by
    by_cases hq : v.q = 0
    · simp [hq, reciprocal]
    · have hq' : v.q.toNat ≠ 0 := fun h ↦ hq (UInt32.toNat_inj.1 h)
      simp [hq, hq', reciprocal, div_eq_mul_inv]
  simp only [perspectiveSum, Corners.zipWith, Corners.toList, hcons]
  simp [add_assoc]

/-- A coordinate is the mean of the corners under perspective.  Where their shares add up to zero,
as they do if no corner takes part, it is the origin. -/
structure IsPerspectiveMean (w : Corners Int) (v : Corners Vertex) (coord : TextureCoord) :
    Prop where
  eq_origin : perspectiveSum w v (fun _ ↦ 1) = 0 → coord = origin
  den_pos : 0 < coord.den
  s_eq : perspectiveSum w v (fun _ ↦ 1) ≠ 0 → (coord.s : ℚ) / coord.den =
    perspectiveSum w v (fun v ↦ v.s.toInt) / perspectiveSum w v fun _ ↦ 1
  t_eq : perspectiveSum w v (fun _ ↦ 1) ≠ 0 → (coord.t : ℚ) / coord.den =
    perspectiveSum w v (fun v ↦ v.t.toInt) / perspectiveSum w v fun _ ↦ 1

theorem isPerspectiveMean_origin {w : Corners Int} {v : Corners Vertex}
    (h : perspectiveSum w v (fun _ ↦ 1) = 0) : IsPerspectiveMean w v origin :=
  ⟨fun _ ↦ rfl, by decide, fun hne ↦ absurd h hne, fun hne ↦ absurd h hne⟩

/-- Weighted sums with scaled reciprocals are scaled perspective sums. -/
theorem weightedSum_eq_mul_perspectiveSum {v : Corners Vertex} {r : Corners Int} {k : ℚ}
    (hr : r.map (Int.cast : Int → ℚ) = (v.map fun v ↦ v.q.toNat).map fun n ↦ k * reciprocal n)
    (w : Corners Int) (value : Vertex → Int) :
    (weightedSum (w.zipWith (· * ·) r) (v.map value) : ℚ) = k * perspectiveSum w v value := by
  simp only [Corners.map, Corners.mk.injEq] at hr
  obtain ⟨ha, hb, hc⟩ := hr
  rw [perspectiveSum_eq, weightedSum]
  simp only [Corners.zipWith, Corners.map, Corners.sum]
  push_cast
  rw [ha, hb, hc]
  ring

theorem isPerspectiveMean_of_weighted {w r : Corners Int} {v : Corners Vertex}
    (hw : w.All (0 ≤ ·)) {bound : Int} (hnonneg : r.All fun r ↦ 0 ≤ r ∧ r ≤ bound) {k : ℚ}
    (hk : 0 < k)
    (hr : r.map (Int.cast : Int → ℚ) = (v.map fun v ↦ v.q.toNat).map fun n ↦ k * reciprocal n)
    {coord : TextureCoord} (h : weighted w v r = some coord) : IsPerspectiveMean w v coord := by
  have hsum : ((w.zipWith (· * ·) r).sum : ℚ) = k * perspectiveSum w v fun _ ↦ 1 := by
    rw [← weightedSum_eq_mul_perspectiveSum hr w fun _ ↦ 1]
    simp only [weightedSum, Corners.zipWith, Corners.map, mul_one]
  rcases eq_of_weighted h with ⟨hzero, rfl⟩ | ⟨hne, -, -, rfl⟩
  · rw [hzero, Int.cast_zero, zero_eq_mul] at hsum
    exact isPerspectiveMean_origin (hsum.resolve_left hk.ne')
  · have hmean (value : Vertex → Int) :
        (weightedSum (w.zipWith (· * ·) r) (v.map value) : ℚ) / (w.zipWith (· * ·) r).sum =
          perspectiveSum w v value / perspectiveSum w v fun _ ↦ 1 := by
      rw [weightedSum_eq_mul_perspectiveSum hr, hsum, mul_div_mul_left _ _ hk.ne']
    refine ⟨fun hzero ↦ ?_, Corners.sum_pos_of_ne (zipWith_nonneg hw hnonneg) hne,
      fun _ ↦ hmean _, fun _ ↦ hmean _⟩
    rw [hzero, mul_zero, Int.cast_eq_zero] at hsum
    exact absurd hsum hne

/-- **Perspective is exact** wherever the first attempt succeeds. -/
theorem isPerspectiveMean_of_first {w : Corners Int} {v : Corners Vertex} (hw : w.All (0 ≤ ·))
    (hfirst : ∀ q, reduced (v.map fun v ↦ v.q.toNat) = some q →
      weighted w v (reciprocals q) = some (perspective w v)) :
    IsPerspectiveMean w v (perspective w v) := by
  cases hq : reduced (v.map fun v ↦ v.q.toNat) with
  | none =>
    have hzero := eq_zero_of_reduced_eq_none hq
    simp only [Corners.map, Corners.mk.injEq] at hzero
    obtain ⟨ha, hb, hc⟩ := hzero
    rw [perspective_of_none hq]
    refine isPerspectiveMean_origin ?_
    simp [perspectiveSum_eq, ha, hb, hc, reciprocal]
  | some q =>
    obtain ⟨k, hk, hr⟩ := exists_scale hq
    exact isPerspectiveMean_of_weighted hw (reciprocals_reduced_mem hq) hk hr (hfirst q hq)

/-! ## Between the corners that take part -/

/-- Only corners with a perspective weight have a part in `r`. -/
def TakesPart {α : Type} [Zero α] (r : Corners α) (v : Corners Vertex) : Prop :=
  (r.zipWith Prod.mk v).All fun p ↦ p.1 ≠ 0 → p.2.q ≠ 0

theorem takesPart_of_reduced {v : Corners Vertex} {q : Corners Nat}
    (h : reduced (v.map fun v ↦ v.q.toNat) = some q) : TakesPart q v := by
  obtain ⟨g, hg, hq⟩ := exists_mul_of_reduced h
  simp only [Corners.map, Corners.mk.injEq] at hq
  obtain ⟨ha, hb, hc⟩ := hq
  have hcorner {v : Vertex} {n : Nat} (h : v.q.toNat = g * n) (hn : n ≠ 0) : v.q ≠ 0 := by
    intro hzero
    rw [hzero] at h
    exact hn ((Nat.mul_eq_zero.1 h.symm).resolve_left hg.ne')
  exact ⟨hcorner ha, hcorner hb, hcorner hc⟩

/-- A value that is zero wherever `n` is takes part with `n`. -/
theorem ne_zero_of_ite {α : Type} [Zero α] {n : Nat} {x : α} {p : Prop} (h : n ≠ 0 → p)
    (hx : (if n = 0 then 0 else x) ≠ 0) : p :=
  h fun hn ↦ hx (if_pos hn)

theorem TakesPart.truncated {v : Corners Vertex} {q : Corners Nat} (h : TakesPart q v) :
    TakesPart (truncated q) v :=
  ⟨ne_zero_of_ite h.a, ne_zero_of_ite h.b, ne_zero_of_ite h.c⟩

theorem TakesPart.reciprocals {v : Corners Vertex} {q : Corners Nat} (h : TakesPart q v) :
    TakesPart (reciprocals q) v :=
  ⟨ne_zero_of_ite h.a, ne_zero_of_ite h.b, ne_zero_of_ite h.c⟩

/-- A coordinate lies between the corners that have a perspective weight, or is the origin. -/
def BetweenParts (v : Corners Vertex) (coord : TextureCoord) : Prop :=
  coord = origin ∨
    Between ((v.toList.filter fun v ↦ v.q ≠ 0).map fun v ↦ v.s.toInt) (coord.s / coord.den) ∧
      Between ((v.toList.filter fun v ↦ v.q ≠ 0).map fun v ↦ v.t.toInt) (coord.t / coord.den)

theorem BetweenParts.mono {v v' : Corners Vertex} {coord : TextureCoord} (h : BetweenParts v coord)
    (hsub : v.toList ⊆ v'.toList) : BetweenParts v' coord := by
  have hparts (f : Vertex → Int) : ((v.toList.filter fun v ↦ v.q ≠ 0).map f) ⊆
      ((v'.toList.filter fun v ↦ v.q ≠ 0).map f) :=
    List.map_subset f (List.filter_subset _ hsub)
  rcases h with rfl | ⟨hs, ht⟩
  · exact .inl rfl
  · exact .inr ⟨hs.mono (hparts _), ht.mono (hparts _)⟩

theorem betweenParts_of_weighted {w r : Corners Int} {v : Corners Vertex} (hw : w.All (0 ≤ ·))
    {bound : Int} (hr : r.All fun r ↦ 0 ≤ r ∧ r ≤ bound) (hpart : TakesPart r v)
    {coord : TextureCoord} (h : weighted w v r = some coord) : BetweenParts v coord := by
  rcases eq_of_weighted h with ⟨-, rfl⟩ | ⟨hne, -, -, rfl⟩
  · exact .inl rfl
  · have hnonneg := zipWith_nonneg hw hr
    have hpos := Corners.sum_pos_of_ne hnonneg hne
    obtain ⟨ha, hb, hc⟩ := v.all_mem_toList
    have hcorner {w r : Int} {u : Vertex} (hu : u ∈ v.toList) (h : r ≠ 0 → u.q ≠ 0)
        (hne : w * r ≠ 0) : u ∈ v.toList.filter fun v ↦ v.q ≠ 0 :=
      List.mem_filter.2 ⟨hu, decide_eq_true (h (right_ne_zero_of_mul hne))⟩
    have hmem : ((w.zipWith (· * ·) r).zipWith Prod.mk v).All fun p ↦
        p.1 ≠ 0 → p.2 ∈ v.toList.filter fun v ↦ v.q ≠ 0 :=
      ⟨hcorner ha hpart.a, hcorner hb hpart.b, hcorner hc hpart.c⟩
    exact .inr ⟨Corners.between_floor hnonneg hpos hmem _, Corners.between_floor hnonneg hpos hmem _⟩

/-- **A perspective coordinate lies between those of the corners that take part**, whichever attempt
it comes from. -/
theorem betweenParts_perspective {w : Corners Int} (hw : w.All (0 ≤ ·)) (v : Corners Vertex) :
    BetweenParts v (perspective w v) := by
  rcases perspective_cases w v with h | ⟨q, r, hq, hr, h⟩
  · exact .inl h
  · have hpart := takesPart_of_reduced hq
    rcases hr with rfl | rfl
    · exact betweenParts_of_weighted hw (reciprocals_reduced_mem hq) hpart.reciprocals h
    · exact betweenParts_of_weighted hw (reciprocals_truncated_mem q) hpart.truncated.reciprocals h

end TextureCoord

/-! ## Ratios of perspective weights -/

/-- The vertex `v'` is `v` with its perspective weight multiplied by `k`. -/
structure Vertex.Scaled (k : ℚ) (v v' : Vertex) : Prop where
  eq : v' = { v with q := v'.q }
  q_eq : (v'.q.toNat : ℚ) = k * v.q.toNat

/-- The corners `v'` are `v` with their perspective weights multiplied by `k`. -/
structure Corners.Scaled (k : ℚ) (v v' : Corners Vertex) : Prop where
  a : v.a.Scaled k v'.a
  b : v.b.Scaled k v'.b
  c : v.c.Scaled k v'.c

namespace Corners.Scaled

variable {k : ℚ} {v v' : Corners Vertex} (h : v.Scaled k v')

include h

theorem flip : v.flip.Scaled k v'.flip := ⟨h.a, h.c, h.b⟩

/-- Whatever does not look at perspective weights is the same. -/
theorem map_eq {β : Type} (f : Vertex → β) (hf : ∀ (v : Vertex) q, f { v with q := q } = f v) :
    v'.map f = v.map f := by
  have hcorner {v v' : Vertex} (h : v.Scaled k v') : f v' = f v := h.eq ▸ hf v v'.q
  simp only [map, hcorner h.a, hcorner h.b, hcorner h.c]

end Corners.Scaled

namespace TextureCoord

/-- Multiplication by a positive number does not change perspective weights that have no common
factor. -/
theorem reduced_scaled {k : ℚ} (hk : 0 < k) {q q' : Corners Nat}
    (h : q'.map (Nat.cast : Nat → ℚ) = q.map fun n : Nat ↦ k * n) : reduced q' = reduced q := by
  have hcorner {m n : Nat} (hmn : (n : ℚ) = k * m) : k.den * n = k.num.toNat * m := by
    have hden : (k.den : ℚ) ≠ 0 := by exact_mod_cast k.den_ne_zero
    have hnum : ((k.num.toNat : ℤ) : ℚ) = k.num := by
      rw [Int.toNat_of_nonneg (Rat.num_pos.2 hk).le]
    have hcast : (k.den * n : ℚ) = k.num.toNat * m := by
      rw [hmn, ← Int.cast_natCast k.num.toNat, hnum]
      nth_rewrite 2 [← Rat.num_div_den k]
      field_simp
    exact_mod_cast hcast
  simp only [Corners.map, Corners.mk.injEq] at h
  obtain ⟨ha, hb, hc⟩ := h
  have hnum : 0 < k.num.toNat := by
    have hpos := Rat.num_pos.2 hk
    omega
  rw [← reduced_mul k.den_pos q', ← reduced_mul hnum q]
  simp only [Corners.map, hcorner ha, hcorner hb, hcorner hc]

/-- An attempt does not look at the perspective weights of the vertices. -/
theorem weighted_congr {v v' : Corners Vertex} (hs : v'.map Vertex.s = v.map Vertex.s)
    (ht : v'.map Vertex.t = v.map Vertex.t) (w r : Corners Int) :
    weighted w v' r = weighted w v r := by
  have hsTerms (ω : Corners Int) :
      ω.zipWith (fun w v ↦ w * v.s.toInt) v' = ω.zipWith (fun w v ↦ w * v.s.toInt) v := by
    rw [zipWith_s, zipWith_s]
    exact congrArg (ω.zipWith (· * ·)) (congrArg (Corners.map Int32.toInt) hs)
  have htTerms (ω : Corners Int) :
      ω.zipWith (fun w v ↦ w * v.t.toInt) v' = ω.zipWith (fun w v ↦ w * v.t.toInt) v := by
    rw [zipWith_t, zipWith_t]
    exact congrArg (ω.zipWith (· * ·)) (congrArg (Corners.map Int32.toInt) ht)
  simp only [weighted]
  rw [hsTerms, htTerms]

/-- **Only the ratios of the perspective weights matter.** -/
theorem perspective_scaled {k : ℚ} (hk : 0 < k) {v v' : Corners Vertex} (h : v.Scaled k v')
    (w : Corners Int) : perspective w v' = perspective w v := by
  have hreduced : reduced (v'.map fun v ↦ v.q.toNat) = reduced (v.map fun v ↦ v.q.toNat) :=
    reduced_scaled hk (by simp only [Corners.map, h.a.q_eq, h.b.q_eq, h.c.q_eq])
  have hweighted :=
    weighted_congr (h.map_eq Vertex.s fun _ _ ↦ rfl) (h.map_eq Vertex.t fun _ _ ↦ rfl)
  simp only [perspective, hreduced, hweighted]

/-- **The same perspective weight everywhere has no effect**: the coordinate is the affine one. -/
theorem perspective_of_uniform {w : Corners Int} (hw : w.All (0 ≤ ·)) (hsum : w.sum ≤ 2 ^ 53)
    (hpos : 0 < w.sum) {v : Corners Vertex} {q : UInt32} (hq : v.map Vertex.q = ⟨q, q, q⟩)
    (hne : q ≠ 0) : perspective w v = affine w v w.sum := by
  have hreduced : reduced (v.map fun v ↦ v.q.toNat) = some ⟨1, 1, 1⟩ := by
    have hqpos : 0 < q.toNat := Nat.pos_of_ne_zero fun h ↦ hne (UInt32.toNat_inj.1 h)
    have hmap : (v.map fun v ↦ v.q.toNat) = (⟨1, 1, 1⟩ : Corners Nat).map (q.toNat * ·) := by
      simp only [Corners.map, Corners.mk.injEq] at hq ⊢
      simp only [hq, mul_one, and_self]
    rw [hmap, reduced_mul hqpos]
    rfl
  have hones : w.zipWith (· * ·) (reciprocals ⟨1, 1, 1⟩) = w := by
    show (⟨w.a * 1, w.b * 1, w.c * 1⟩ : Corners Int) = w
    simp only [mul_one]
  have hr : (reciprocals ⟨1, 1, 1⟩).All fun r : Int ↦ 0 ≤ r ∧ r ≤ 1 :=
    ⟨by decide, by decide, by decide⟩
  obtain ⟨coord, hcoord, -, -⟩ :=
    exists_weighted hw hr (toInt_all Vertex.s v) (toInt_all Vertex.t v) (by omega) (by omega)
  rcases eq_of_weighted hcoord with ⟨hzero, -⟩ | ⟨-, -, -, heq⟩
  · rw [hones] at hzero
    omega
  · rw [hones] at heq
    rw [perspective_of_first hreduced hcoord]
    exact heq

end TextureCoord

end DisplayRaster
