import DisplayRaster.Proofs.Texture.Range
import DisplayRaster.Proofs.Triangle.Orientation

/-!
# Perspective coordinates and the order of the corners

A perspective coordinate is made of sums over the corners, and a sum has no order.  But the first
attempt at a coordinate also checks the sum of the first two terms, and that of terms of one sign
may be too long for a word where a third one of the other sign makes the whole sum short enough.

So the order of the corners decides at most which of the two attempts gives the coordinate, and not
what either attempt gives (`Shares.perspective_of_perm`).  Where the first attempt comes out alike
in all orders (`Shares.Steady`) they all have the same coordinate.  Corners are `Mild`, which makes
that so with all weights (`Shares.steady_of_mild`), in two common cases:

* all horizontal texture coordinates have one sign and all vertical ones too;
* perspective weights and texture coordinates are so short together that no sum can be too long.
-/

set_option autoImplicit false

namespace DisplayRaster

namespace Corners

theorem sum_flip (v : Corners Int) : v.flip.sum = v.sum := by
  simp only [sum, flip]
  omega

theorem sum_rotate (v : Corners Int) : v.rotate.sum = v.sum := by
  simp only [sum, rotate]
  omega

theorem sum_of_perm {v v' : Corners Int} (h : v'.toList.Perm v.toList) : v'.sum = v.sum :=
  eq_of_perm sum_flip sum_rotate h

theorem perm_map {α β : Type} (f : α → β) {v v' : Corners α} (h : v'.toList.Perm v.toList) :
    (v'.map f).toList.Perm (v.map f).toList :=
  h.map f

theorem All.of_perm {α : Type} {p : α → Prop} {v v' : Corners α} (hv : v.All p)
    (h : v'.toList.Perm v.toList) : v'.All p := by
  have hmem : ∀ x ∈ v'.toList, p x := fun x hx ↦ by
    obtain ⟨ha, hb, hc⟩ := hv
    have hx := h.subset hx
    simp only [toList, List.mem_cons, List.not_mem_nil, or_false] at hx
    rcases hx with rfl | rfl | rfl <;> assumption
  obtain ⟨ha, hb, hc⟩ := v'.all_mem_toList
  exact ⟨hmem _ ha, hmem _ hb, hmem _ hc⟩

/-- Values that are not negative and cancel are zero. -/
theorem all_eq_zero {v : Corners Int} (hv : v.All (0 ≤ ·)) (h : v.sum = 0) : v.All (· = 0) := by
  obtain ⟨ha, hb, hc⟩ := hv
  rw [sum] at h
  exact ⟨by omega, by omega, by omega⟩

/-- None of the values is negative, or none is positive. -/
def OneSign (values : Corners Int) : Prop := values.All (0 ≤ ·) ∨ values.All (· ≤ 0)

theorem OneSign.of_perm {v v' : Corners Int} (hv : v.OneSign) (h : v'.toList.Perm v.toList) :
    v'.OneSign :=
  hv.imp (All.of_perm · h) (All.of_perm · h)

/-- Weights that are not negative leave the sign alone. -/
theorem OneSign.weighted {w values : Corners Int} (hw : w.All (0 ≤ ·)) (h : values.OneSign) :
    (w.zipWith (· * ·) values).OneSign := by
  obtain ⟨ha, hb, hc⟩ := hw
  rcases h with ⟨hva, hvb, hvc⟩ | ⟨hva, hvb, hvc⟩
  · exact .inl ⟨mul_nonneg ha hva, mul_nonneg hb hvb, mul_nonneg hc hvc⟩
  · exact .inr ⟨mul_nonpos_of_nonneg_of_nonpos ha hva, mul_nonpos_of_nonneg_of_nonpos hb hvb,
      mul_nonpos_of_nonneg_of_nonpos hc hvc⟩

end Corners

namespace TextureCoord

/-! ## Attempts in unlimited precision -/

/-- The coordinate for the scaled reciprocals `r`, whatever fits. -/
def unlimited (w r : Corners Int) (v : Corners Vertex) : TextureCoord :=
  let weights := w.zipWith (· * ·) r
  if weights.sum = 0 then origin
  else
    ⟨weightedSum weights (v.map fun v ↦ v.s.toInt), weightedSum weights (v.map fun v ↦ v.t.toInt),
      weights.sum⟩

theorem eq_unlimited_of_weighted {w r : Corners Int} {v : Corners Vertex} {coord : TextureCoord}
    (h : weighted w v r = some coord) : coord = unlimited w r v := by
  rw [unlimited]
  rcases eq_of_weighted h with ⟨hzero, rfl⟩ | ⟨hne, -, -, rfl⟩
  · exact (if_pos hzero).symm
  · exact (if_neg hne).symm

/-- Whether the sums of a coordinate fit, in the order of the corners. -/
def coordFits (w r : Corners Int) (v : Corners Vertex) : Bool :=
  let weights := w.zipWith (· * ·) r
  sumFits (weights.zipWith (· * ·) (v.map fun v ↦ v.s.toInt)) &&
    sumFits (weights.zipWith (· * ·) (v.map fun v ↦ v.t.toInt))

/-- An attempt whose weights can be added up succeeds iff the sums of its coordinate fit. -/
theorem weighted_eq_ite {w r : Corners Int} (h : sumFits (w.zipWith (· * ·) r) = true)
    (v : Corners Vertex) :
    weighted w v r = if coordFits w r v then some (unlimited w r v) else none := by
  rw [weighted, coordFits, unlimited]
  simp only [zipWith_s, zipWith_t, h, Bool.true_and]
  split
  · split <;> rfl
  · rfl

/-! ## Changes of order -/

/-- A change of the order of corners, with what perspective coordinates need of it. -/
structure Reorders (σ : ∀ {α : Type}, Corners α → Corners α) : Prop where
  map_eq : ∀ {α β : Type} (f : α → β) (v : Corners α), (σ v).map f = σ (v.map f)
  zipWith_eq : ∀ {α β γ : Type} (f : α → β → γ) (v : Corners α) (w : Corners β),
    (σ v).zipWith f (σ w) = σ (v.zipWith f w)
  sum_eq : ∀ v : Corners Int, (σ v).sum = v.sum
  reduced_eq : ∀ q : Corners Nat, reduced (σ q) = (reduced q).map σ
  reciprocals_eq : ∀ q : Corners Nat, reciprocals (σ q) = σ (reciprocals q)
  truncated_eq : ∀ q : Corners Nat, truncated (σ q) = σ (truncated q)

theorem reorders_flip : Reorders @Corners.flip where
  map_eq _ _ := rfl
  zipWith_eq _ _ _ := rfl
  sum_eq := Corners.sum_flip
  reduced_eq q := by
    have hgcd : (q.a.gcd q.c).gcd q.b = (q.a.gcd q.b).gcd q.c := by
      rw [Nat.gcd_assoc, Nat.gcd_comm q.c, ← Nat.gcd_assoc]
    simp only [reduced, Corners.flip, hgcd]
    split <;> rfl
  reciprocals_eq q := by
    simp only [reciprocals, Corners.flip, mul_comm (factor q.c : Int) (factor q.b)]
    rfl
  truncated_eq q := by
    have hmax : max (max q.a q.c) q.b = max (max q.a q.b) q.c := by omega
    simp only [truncated, Corners.flip, Corners.map, hmax]

theorem reorders_rotate : Reorders @Corners.rotate where
  map_eq _ _ := rfl
  zipWith_eq _ _ _ := rfl
  sum_eq := Corners.sum_rotate
  reduced_eq q := by
    have hgcd : (q.b.gcd q.c).gcd q.a = (q.a.gcd q.b).gcd q.c := by
      rw [Nat.gcd_comm, ← Nat.gcd_assoc]
    simp only [reduced, Corners.rotate, hgcd]
    split <;> rfl
  reciprocals_eq q := by
    simp only [reciprocals, Corners.rotate, mul_comm (factor q.b : Int) (factor q.a : Int),
      mul_comm (factor q.c : Int) (factor q.a : Int)]
    rfl
  truncated_eq q := by
    have hmax : max (max q.b q.c) q.a = max (max q.a q.b) q.c := by omega
    simp only [truncated, Corners.rotate, Corners.map, hmax]

theorem Reorders.unlimited_eq {σ : ∀ {α : Type}, Corners α → Corners α} (hσ : Reorders @σ)
    (w r : Corners Int) (v : Corners Vertex) : unlimited (σ w) (σ r) (σ v) = unlimited w r v := by
  have hweighted (w values : Corners Int) :
      weightedSum (σ w) (σ values) = weightedSum w values := by
    rw [weightedSum, weightedSum, hσ.zipWith_eq, hσ.sum_eq]
  simp only [unlimited, hσ.zipWith_eq, hσ.map_eq, hσ.sum_eq, hweighted]

/-! ## Which attempt is taken -/

/-- The coordinate with the reduced perspective weights as `cut` leaves them, whatever fits. -/
def attempt (cut : Corners Nat → Corners Nat) (w : Corners Int) (v : Corners Vertex) :
    TextureCoord :=
  match reduced (v.map fun v ↦ v.q.toNat) with
  | none => origin
  | some q => unlimited w (reciprocals (cut q)) v

/-- Whether the sums of the first attempt fit, in the order of the corners. -/
def firstFits (w : Corners Int) (v : Corners Vertex) : Bool :=
  match reduced (v.map fun v ↦ v.q.toNat) with
  | none => true
  | some q => coordFits w (reciprocals q) v

theorem Reorders.attempt_eq {σ : ∀ {α : Type}, Corners α → Corners α} (hσ : Reorders @σ)
    {cut : Corners Nat → Corners Nat} (hcut : cut = id ∨ cut = truncated) (w : Corners Int)
    (v : Corners Vertex) : attempt cut (σ w) (σ v) = attempt cut w v := by
  have hcut (q : Corners Nat) : cut (σ q) = σ (cut q) := by
    rcases hcut with rfl | rfl
    · rfl
    · exact hσ.truncated_eq q
  rw [attempt, attempt, hσ.map_eq, hσ.reduced_eq]
  cases reduced (v.map fun v ↦ v.q.toNat) with
  | none => rfl
  | some q =>
    show unlimited (σ w) (reciprocals (cut (σ q))) (σ v) = _
    rw [hcut, hσ.reciprocals_eq, hσ.unlimited_eq]

section

variable {w : Corners Int} (hw : w.All (0 ≤ ·)) (hsum : w.sum ≤ 2 ^ 53)

include hw hsum

/-- The sum of the weights themselves fits in any order. -/
theorem sumFits_weights {v : Corners Vertex} {q : Corners Nat}
    (hq : reduced (v.map fun v ↦ v.q.toNat) = some q) :
    sumFits (w.zipWith (· * ·) (reciprocals q)) = true := by
  have habs {r : Int} (h : 0 ≤ r ∧ r ≤ 2 ^ 64) : |r| ≤ 2 ^ 64 := by
    rw [abs_of_nonneg h.1]
    exact h.2
  obtain ⟨ha, hb, hc⟩ := reciprocals_reduced_mem hq
  exact sumFits_of_le hw ⟨habs ha, habs hb, habs hc⟩ (by omega)

/-- **A perspective coordinate is that of the first attempt if its sums fit**, and that of the
second one otherwise. -/
theorem perspective_eq_ite (v : Corners Vertex) :
    perspective w v = if firstFits w v then attempt id w v else attempt truncated w v := by
  rw [firstFits, attempt, attempt]
  cases hq : reduced (v.map fun v ↦ v.q.toNat) with
  | none => exact perspective_of_none hq
  | some q =>
    have hfirst := weighted_eq_ite (sumFits_weights hw hsum hq) v
    simp only
    split
    · next hfits =>
      rw [if_pos hfits] at hfirst
      exact perspective_of_first hq hfirst
    · next hfits =>
      rw [if_neg hfits] at hfirst
      exact eq_unlimited_of_weighted (perspective_of_retry hw hsum hq hfirst).1

end

/-- **Terms of one sign fit with all partial sums if their sum fits.** -/
theorem sumFits_of_oneSign {terms : Corners Int} (h : terms.OneSign) :
    sumFits terms = fits terms.sum := by
  rw [Bool.eq_iff_iff]
  simp only [sumFits, Bool.and_eq_true, fits_iff, Corners.sum]
  rcases h with ⟨ha, hb, hc⟩ | ⟨ha, hb, hc⟩ <;> omega

/-- Whether the first attempt succeeds does not take an order if the texture coordinates have one
sign. -/
theorem firstFits_of_oneSign {w : Corners Int} (hw : w.All (0 ≤ ·)) {v : Corners Vertex}
    (hs : (v.map fun v ↦ v.s.toInt).OneSign) (ht : (v.map fun v ↦ v.t.toInt).OneSign) :
    firstFits w v = (fits (attempt id w v).s && fits (attempt id w v).t) := by
  rw [firstFits, attempt]
  cases hq : reduced (v.map fun v ↦ v.q.toNat) with
  | none => rfl
  | some q =>
    have hnonneg := zipWith_nonneg hw (reciprocals_reduced_mem hq)
    simp only [coordFits, unlimited, id, sumFits_of_oneSign (hs.weighted hnonneg),
      sumFits_of_oneSign (ht.weighted hnonneg)]
    split
    · next hzero =>
      have hsum (values : Corners Int) :
          ((w.zipWith (· * ·) (reciprocals q)).zipWith (· * ·) values).sum = 0 := by
        obtain ⟨ha, hb, hc⟩ := Corners.all_eq_zero hnonneg hzero
        simp only [Corners.zipWith, Corners.sum] at ha hb hc ⊢
        rw [ha, hb, hc]
        simp
      rw [hsum, hsum]
      rfl
    · rfl

/-- Perspective weights of at most `n` and texture coordinates of at most `limit` either way, so
short that no sum over the corners is too long. -/
structure Short (n : Nat) (limit : Int) (v : Corners Vertex) : Prop where
  n_pos : 1 ≤ n
  limit_pos : 1 ≤ limit
  q_le : (v.map fun v ↦ v.q.toNat).All (· ≤ n)
  s_le : (v.map fun v ↦ v.s.toInt).All fun s ↦ |s| ≤ limit
  t_le : (v.map fun v ↦ v.t.toInt).All fun t ↦ |t| ≤ limit
  product_le : 2 ^ 53 * (n * n : Int) * limit ≤ 2 ^ 126

theorem Short.of_perm {n : Nat} {limit : Int} {v v' : Corners Vertex} (hv : Short n limit v)
    (h : v'.toList.Perm v.toList) : Short n limit v' where
  n_pos := hv.n_pos
  limit_pos := hv.limit_pos
  q_le := hv.q_le.of_perm (Corners.perm_map _ h)
  s_le := hv.s_le.of_perm (Corners.perm_map _ h)
  t_le := hv.t_le.of_perm (Corners.perm_map _ h)
  product_le := hv.product_le

theorem firstFits_of_short {w : Corners Int} (hw : w.All (0 ≤ ·)) (hsum : w.sum ≤ 2 ^ 53)
    {v : Corners Vertex} {n : Nat} {limit : Int} (hv : Short n limit v) : firstFits w v = true := by
  rw [firstFits]
  cases hq : reduced (v.map fun v ↦ v.q.toNat) with
  | none => rfl
  | some q =>
    have hr := reciprocals_mem (reduced_le hq hv.q_le) hv.n_pos
    have hlimit : 0 ≤ limit := zero_le_one.trans hv.limit_pos
    have hle : w.sum * (n * n : Int) * limit ≤ 2 ^ 126 :=
      (mul_le_mul_of_nonneg_right (mul_le_mul_of_nonneg_right hsum (by positivity)) hlimit).trans
        hv.product_le
    have hsome := isSome_weighted hw hr hv.s_le hv.t_le hv.limit_pos hle
    rw [weighted_eq_ite (sumFits_weights hw hsum hq)] at hsome
    by_contra hfits
    rw [if_neg hfits] at hsome
    cases hsome

/-- Corners whose texture coordinates have one sign on each axis, or that are short. -/
def Mild (v : Corners Vertex) : Prop :=
  ((v.map fun v ↦ v.s.toInt).OneSign ∧ (v.map fun v ↦ v.t.toInt).OneSign) ∨
    ∃ n limit, Short n limit v

theorem Mild.of_perm {v v' : Corners Vertex} (hv : Mild v) (h : v'.toList.Perm v.toList) :
    Mild v' := by
  rcases hv with ⟨hs, ht⟩ | ⟨n, limit, hshort⟩
  · exact .inl ⟨hs.of_perm (Corners.perm_map _ h), ht.of_perm (Corners.perm_map _ h)⟩
  · exact .inr ⟨n, limit, hshort.of_perm h⟩

end TextureCoord

/-! ## Orders of corners -/

open TextureCoord (attempt firstFits perspective truncated)

/-- Corners with their weights at a pixel. -/
abbrev Shares := Corners (Int × Vertex)

namespace Shares

/-- The weights in the order of the corners. -/
def weights (p : Shares) : Corners Int := p.map Prod.fst

/-- The corners without their weights. -/
def vertices (p : Shares) : Corners Vertex := p.map Prod.snd

/-- Weights as they come up under a triangle. -/
structure InRange (p : Shares) : Prop where
  nonneg : p.weights.All (0 ≤ ·)
  sum_le : p.weights.sum ≤ 2 ^ 53

variable {p p' : Shares}

theorem InRange.of_perm (hp : p.InRange) (h : p'.toList.Perm p.toList) : p'.InRange where
  nonneg := hp.nonneg.of_perm (Corners.perm_map Prod.fst h)
  sum_le := (Corners.sum_of_perm (Corners.perm_map Prod.fst h)).trans_le hp.sum_le

/-- **Neither attempt takes an order.** -/
theorem attempt_of_perm {cut : Corners Nat → Corners Nat} (hcut : cut = id ∨ cut = truncated)
    (h : p'.toList.Perm p.toList) :
    attempt cut p'.weights p'.vertices = attempt cut p.weights p.vertices :=
  Corners.eq_of_perm (f := fun p : Shares ↦ attempt cut p.weights p.vertices)
    (fun p : Shares ↦ TextureCoord.reorders_flip.attempt_eq hcut p.weights p.vertices)
    (fun p : Shares ↦ TextureCoord.reorders_rotate.attempt_eq hcut p.weights p.vertices) h

/-- **The order of the corners decides at most which attempt gives the coordinate.** -/
theorem perspective_of_perm (hp : p.InRange) (h : p'.toList.Perm p.toList) :
    perspective p'.weights p'.vertices =
      if firstFits p'.weights p'.vertices then attempt id p.weights p.vertices
      else attempt truncated p.weights p.vertices := by
  have hp' := hp.of_perm h
  rw [TextureCoord.perspective_eq_ite hp'.nonneg hp'.sum_le, attempt_of_perm (.inl rfl) h,
    attempt_of_perm (.inr rfl) h]

/-- The first attempt comes out alike in every order of the corners. -/
def Steady (p : Shares) : Prop :=
  ∀ p' : Shares, p'.toList.Perm p.toList →
    firstFits p'.weights p'.vertices = firstFits p.weights p.vertices

theorem Steady.of_perm (hp : p.Steady) (h : p'.toList.Perm p.toList) : p'.Steady :=
  fun p'' h' ↦ (hp p'' (h'.trans h)).trans (hp p' h).symm

/-- Corners whose first attempt is steady have one coordinate in all orders. -/
theorem Steady.perspective_eq (hsteady : p.Steady) (hp : p.InRange) (h : p'.toList.Perm p.toList) :
    perspective p'.weights p'.vertices = perspective p.weights p.vertices := by
  rw [perspective_of_perm hp h, perspective_of_perm hp (.refl _), hsteady p' h]

/-- Texture coordinates of one sign make the first attempt steady. -/
theorem steady_of_oneSign (hp : p.InRange) (hs : (p.vertices.map fun v ↦ v.s.toInt).OneSign)
    (ht : (p.vertices.map fun v ↦ v.t.toInt).OneSign) : p.Steady := by
  intro p' h
  have hp' := hp.of_perm h
  have hvertices : p'.vertices.toList.Perm p.vertices.toList := Corners.perm_map Prod.snd h
  rw [TextureCoord.firstFits_of_oneSign hp'.nonneg (hs.of_perm (Corners.perm_map _ hvertices))
      (ht.of_perm (Corners.perm_map _ hvertices)),
    TextureCoord.firstFits_of_oneSign hp.nonneg hs ht, attempt_of_perm (.inl rfl) h]

/-- Short weights and texture coordinates make the first attempt steady. -/
theorem steady_of_short (hp : p.InRange) {n : Nat} {limit : Int}
    (hshort : TextureCoord.Short n limit p.vertices) : p.Steady := by
  intro p' h
  have hp' := hp.of_perm h
  have hvertices : p'.vertices.toList.Perm p.vertices.toList := Corners.perm_map Prod.snd h
  rw [TextureCoord.firstFits_of_short hp'.nonneg hp'.sum_le (hshort.of_perm hvertices),
    TextureCoord.firstFits_of_short hp.nonneg hp.sum_le hshort]

/-- **Mild corners have a steady first attempt** with all weights. -/
theorem steady_of_mild (hp : p.InRange) (h : TextureCoord.Mild p.vertices) : p.Steady := by
  rcases h with ⟨hs, ht⟩ | ⟨n, limit, hshort⟩
  · exact steady_of_oneSign hp hs ht
  · exact steady_of_short hp hshort

end Shares

end DisplayRaster
