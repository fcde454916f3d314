import DisplayRaster.Proofs.Triangle.Plane

/-!
# The fill rule

Triangles that do not overlap share no pixel, and a pixel whose center lies in two of them is drawn
by exactly one.  Vertices are at even half pixels and centers at odd ones, so a center is never a
corner and lies on one edge of a triangle at most.  A center inside two triangles, or inside one and
on an edge of the other, has a way into both of them, and so do two edges that do not run against
each other (`exists_slope_pos`).  What is left is a center on two edges in opposite directions, of
which one and only one is a top or left edge (`isTopOrLeft_of_opposite`).
-/

set_option autoImplicit false

namespace DisplayRaster

/-! ## Directions of edges -/

/-- The squared length of an edge. -/
def lengthSq (a b : Point) : Int := (b.x - a.x) * (b.x - a.x) + (b.y - a.y) * (b.y - a.y)

/-- The scalar product of two edges. -/
def scalar (a b c d : Point) : Int := (b.x - a.x) * (d.x - c.x) + (b.y - a.y) * (d.y - c.y)

/-- The edges from `a` to `b` and from `c` to `d` run against each other. -/
structure Opposite (a b c d : Point) : Prop where
  parallel : slope a b (d.x - c.x) (d.y - c.y) = 0
  against : scalar a b c d < 0

theorem lengthSq_pos {a b : Point} (h : a ≠ b) : 0 < lengthSq a b := by
  have hd : b.x - a.x ≠ 0 ∨ b.y - a.y ≠ 0 := by
    by_contra hd
    push Not at hd
    obtain ⟨hx, hy⟩ := hd
    apply h
    cases a
    cases b
    simp only [Point.mk.injEq]
    exact ⟨by simp only at hx; omega, by simp only at hy; omega⟩
  rcases hd with hx | hy
  · exact add_pos_of_pos_of_nonneg (mul_self_pos.2 hx) (mul_self_nonneg _)
  · exact add_pos_of_nonneg_of_pos (mul_self_nonneg _) (mul_self_pos.2 hy)

/-- The direction square to an edge leads to its inner side. -/
theorem slope_normal (a b : Point) : slope a b (-(b.y - a.y)) (b.x - a.x) = lengthSq a b := by
  simp only [slope, lengthSq]
  ring

/-- Every edge has an inner side. -/
theorem exists_slope_pos_of_ne {a b : Point} (h : a ≠ b) : ∃ dx dy, 0 < slope a b dx dy :=
  ⟨_, _, (lengthSq_pos h).trans_eq (slope_normal a b).symm⟩

/-- Two edges that do not run against each other have inner sides in common. -/
theorem exists_slope_pos {a b c d : Point} (hab : a ≠ b) (hcd : c ≠ d) (h : ¬ Opposite a b c d) :
    ∃ dx dy, 0 < slope a b dx dy ∧ 0 < slope c d dx dy := by
  by_cases hk : slope a b (d.x - c.x) (d.y - c.y) = 0
  · -- parallel edges in the same direction: square to both
    refine ⟨-(b.y - a.y), b.x - a.x, ?_, ?_⟩
    · rw [slope_normal]
      exact lengthSq_pos hab
    · have hscalar : slope c d (-(b.y - a.y)) (b.x - a.x) = scalar a b c d := by
        simp only [slope, scalar]
        ring
      have hlagrange : lengthSq a b * lengthSq c d = scalar a b c d * scalar a b c d := by
        have hsq : slope a b (d.x - c.x) (d.y - c.y) * slope a b (d.x - c.x) (d.y - c.y) = 0 := by
          rw [hk, mul_zero]
        simp only [slope, lengthSq, scalar] at hsq ⊢
        linear_combination hsq
      have hne : scalar a b c d ≠ 0 := by
        intro h0
        rw [h0, mul_zero] at hlagrange
        exact (mul_pos (lengthSq_pos hab) (lengthSq_pos hcd)).ne' hlagrange
      have hnonneg : ¬ scalar a b c d < 0 := fun hneg ↦ h ⟨hk, hneg⟩
      rw [hscalar]
      omega
  · -- a step along one edge and back along the other, with the sign of the turn between them
    have hsq := mul_self_pos.2 hk
    refine ⟨slope a b (d.x - c.x) (d.y - c.y) * ((d.x - c.x) - (b.x - a.x)),
      slope a b (d.x - c.x) (d.y - c.y) * ((d.y - c.y) - (b.y - a.y)), hsq.trans_eq ?_,
      hsq.trans_eq ?_⟩
    · simp only [slope]
      ring
    · simp only [slope]
      ring

/-- Values in a negative ratio have opposite signs. -/
theorem pos_iff_neg_of_mul_eq {k l s t : Int} (hk : 0 < k) (hl : l < 0) (h : k * t = l * s) :
    0 < t ↔ s < 0 := by
  constructor
  · intro ht
    by_contra hs
    have h₁ := mul_pos hk ht
    have h₂ := mul_nonpos_of_nonpos_of_nonneg hl.le (not_lt.1 hs)
    omega
  · intro hs
    have h₁ := mul_pos_of_neg_of_neg hl hs
    exact (mul_pos_iff_of_pos_left hk).1 (h ▸ h₁)

/-- Of two edges that run against each other, one is a top or left edge. -/
theorem isTopOrLeft_of_opposite {a b c d : Point} (hab : a ≠ b) (h : Opposite a b c d) :
    isTopOrLeft c d = !isTopOrLeft a b := by
  obtain ⟨hk, hl⟩ := h
  have hlen := lengthSq_pos hab
  have hx : lengthSq a b * (d.x - c.x) = scalar a b c d * (b.x - a.x) := by
    simp only [slope, lengthSq, scalar] at hk ⊢
    linear_combination (-(b.y - a.y)) * hk
  have hy : lengthSq a b * (d.y - c.y) = scalar a b c d * (b.y - a.y) := by
    simp only [slope, lengthSq, scalar] at hk ⊢
    linear_combination (b.x - a.x) * hk
  have hx₁ := pos_iff_neg_of_mul_eq hlen hl hx
  have hy₁ := pos_iff_neg_of_mul_eq hlen hl hy
  have hy₂ := pos_iff_neg_of_mul_eq hlen hl (s := -(b.y - a.y)) (t := -(d.y - c.y)) (by
    rw [mul_neg, hy, mul_neg])
  have hne : b.x - a.x ≠ 0 ∨ b.y - a.y ≠ 0 := by
    by_contra hd
    push Not at hd
    rw [lengthSq, hd.1, hd.2] at hlen
    omega
  rw [Bool.eq_iff_iff]
  simp only [isTopOrLeft, Bool.not_eq_true', Bool.or_eq_true, Bool.and_eq_true, decide_eq_true_eq,
    Bool.or_eq_false_iff, Bool.and_eq_false_iff, decide_eq_false_iff_not]
  omega

/-! ## Centers in a triangle -/

/-- A point on two edges is their common corner. -/
theorem eq_corner {a b c o : Point} (harea : edge a b c ≠ 0) (hbc : edge b c o = 0)
    (hca : edge c a o = 0) : o.x = c.x := by
  have h : edge a b c * (o.x - c.x) = 0 := by
    simp only [edge] at hbc hca ⊢
    linear_combination (a.x - c.x) * hbc + (b.x - c.x) * hca
  have h := (mul_eq_zero.1 h).resolve_left harea
  omega

/-- A position at whole pixels. -/
structure Point.OnGrid (p : Point) : Prop where
  x_even : p.x % 2 = 0
  y_even : p.y % 2 = 0

/-- A triangle with corners at whole pixels. -/
structure OnGrid (p : Corners Point) : Prop where
  a : p.a.OnGrid
  b : p.b.OnGrid
  c : p.c.OnGrid

/-- The point `o` lies on the outer side of no edge. -/
structure Encloses (p : Corners Point) (o : Point) : Prop where
  bc : 0 ≤ edge p.b p.c o
  ca : 0 ≤ edge p.c p.a o
  ab : 0 ≤ edge p.a p.b o

/-- The point `o` lies on the edge of `p` from `a` to `b` and on no other. -/
structure OnEdge (p : Corners Point) (o a b : Point) : Prop where
  ne : a ≠ b
  enters : ∀ dx dy, 0 < slope a b dx dy → Enters p o dx dy
  covers : coversValues p (edgeValues p o) = isTopOrLeft a b

theorem ne_of_edge_pos {a b c : Point} (h : 0 < edge a b c) : a ≠ b := by
  rintro rfl
  simp [edge] at h

theorem admits_eq_true {a b : Point} {w : Int} :
    admits a b w = true ↔ 0 < w ∨ w = 0 ∧ (b.y < a.y ∨ b.y = a.y ∧ a.x < b.x) := by
  simp only [admits, isTopOrLeft, Bool.or_eq_true, Bool.and_eq_true, decide_eq_true_eq]

theorem admits_of_pos {a b : Point} {w : Int} (h : 0 < w) : admits a b w = true := by
  simp [admits, h]

theorem admits_zero (a b : Point) : admits a b 0 = isTopOrLeft a b := by
  simp [admits]

/-- A center in a triangle lies inside, or on one edge. -/
theorem inside_or_onEdge {p : Corners Point} (hp : 0 < signedArea p) (hgrid : OnGrid p) {x y : Int}
    (h : Encloses p (pixelCenter x y)) :
    ((∀ dx dy, Enters p (pixelCenter x y) dx dy) ∧
      coversValues p (edgeValues p (pixelCenter x y)) = true) ∨
    ∃ a b, OnEdge p (pixelCenter x y) a b := by
  obtain ⟨⟨hxa, -⟩, ⟨hxb, -⟩, ⟨hxc, -⟩⟩ := hgrid
  obtain ⟨hbc, hca, hab⟩ := h
  have hodd : (pixelCenter x y).x % 2 = 1 := by simp only [pixelCenter]; omega
  generalize pixelCenter x y = o at *
  have hp₁ : 0 < edge p.b p.c p.a := by rwa [edge_rotate]
  have hp₂ : 0 < edge p.c p.a p.b := by rwa [edge_rotate]
  have hc : edge p.b p.c o = 0 → edge p.c p.a o ≠ 0 := fun h₁ h₂ ↦ by
    have := eq_corner (show edge p.a p.b p.c ≠ 0 from hp.ne') h₁ h₂
    omega
  have ha : edge p.c p.a o = 0 → edge p.a p.b o ≠ 0 := fun h₁ h₂ ↦ by
    have := eq_corner hp₁.ne' h₁ h₂
    omega
  have hb : edge p.a p.b o = 0 → edge p.b p.c o ≠ 0 := fun h₁ h₂ ↦ by
    have := eq_corner hp₂.ne' h₁ h₂
    omega
  rcases hbc.eq_or_lt with hbc | hbc
  · have hca := hca.lt_of_ne (hc hbc.symm).symm
    have hab := hab.lt_of_ne fun h ↦ hb h.symm hbc.symm
    refine .inr ⟨p.b, p.c, ne_of_edge_pos hp₁,
      fun dx dy h ↦ ⟨.inr ⟨hbc.symm, h⟩, .inl hca, .inl hab⟩, ?_⟩
    simp only [coversValues, edgeValues, ← hbc, admits_zero, admits_of_pos hca, admits_of_pos hab,
      Bool.and_true]
  · rcases hca.eq_or_lt with hca | hca
    · have hab := hab.lt_of_ne (ha hca.symm).symm
      refine .inr ⟨p.c, p.a, ne_of_edge_pos hp₂,
        fun dx dy h ↦ ⟨.inl hbc, .inr ⟨hca.symm, h⟩, .inl hab⟩, ?_⟩
      simp only [coversValues, edgeValues, ← hca, admits_zero, admits_of_pos hbc,
        admits_of_pos hab, Bool.and_true, Bool.true_and]
    · rcases hab.eq_or_lt with hab | hab
      · refine .inr ⟨p.a, p.b, ne_of_edge_pos hp,
          fun dx dy h ↦ ⟨.inl hbc, .inl hca, .inr ⟨hab.symm, h⟩⟩, ?_⟩
        simp only [coversValues, edgeValues, ← hab, admits_zero, admits_of_pos hbc,
          admits_of_pos hca, Bool.true_and]
      · refine .inl ⟨fun dx dy ↦ ⟨.inl hbc, .inl hca, .inl hab⟩, ?_⟩
        simp only [coversValues, edgeValues, admits_of_pos hbc, admits_of_pos hca,
          admits_of_pos hab, Bool.and_true]

/-- **A center in two triangles that do not overlap is covered by one of them.** -/
theorem covers_eq_not {p r : Corners Point} (hp : 0 < signedArea p) (hr : 0 < signedArea r)
    (hpgrid : OnGrid p) (hrgrid : OnGrid r)
    (hdisjoint : Disjoint (interior (closedTriangle (p.map Point.place)))
      (interior (closedTriangle (r.map Point.place)))) {x y : Int}
    (hpo : Encloses p (pixelCenter x y)) (hro : Encloses r (pixelCenter x y)) :
    coversValues r (edgeValues r (pixelCenter x y)) =
      !coversValues p (edgeValues p (pixelCenter x y)) := by
  have hnoway : ∀ dx dy, Enters p (pixelCenter x y) dx dy → ¬ Enters r (pixelCenter x y) dx dy :=
    fun dx dy h₁ h₂ ↦ not_disjoint_interior hp hr h₁ h₂ hdisjoint
  rcases inside_or_onEdge hp hpgrid hpo with ⟨hin, -⟩ | ⟨a, b, hab⟩
  · rcases inside_or_onEdge hr hrgrid hro with ⟨hin', -⟩ | ⟨c, d, hcd⟩
    · exact absurd (hin' 0 0) (hnoway 0 0 (hin 0 0))
    · obtain ⟨dx, dy, h⟩ := exists_slope_pos_of_ne hcd.ne
      exact absurd (hcd.enters dx dy h) (hnoway dx dy (hin dx dy))
  · rcases inside_or_onEdge hr hrgrid hro with ⟨hin', -⟩ | ⟨c, d, hcd⟩
    · obtain ⟨dx, dy, h⟩ := exists_slope_pos_of_ne hab.ne
      exact absurd (hin' dx dy) (hnoway dx dy (hab.enters dx dy h))
    · have hopposite : Opposite a b c d := by
        by_contra h
        obtain ⟨dx, dy, h₁, h₂⟩ := exists_slope_pos hab.ne hcd.ne h
        exact hnoway dx dy (hab.enters dx dy h₁) (hcd.enters dx dy h₂)
      rw [hab.covers, hcd.covers, isTopOrLeft_of_opposite hab.ne hopposite]

/-- A covered center is enclosed. -/
theorem encloses_of_covers {p : Corners Point} {o : Point}
    (h : coversValues p (edgeValues p o) = true) : Encloses p o := by
  simp only [coversValues, Bool.and_eq_true] at h
  obtain ⟨⟨ha, hb⟩, hc⟩ := h
  exact ⟨nonneg_of_admits ha, nonneg_of_admits hb, nonneg_of_admits hc⟩

/-! ## Bounds -/

/-- A weighted mean lies between the least and the greatest value. -/
theorem between_of_mean {w v : Corners Int} {n : Int} (ha : 0 ≤ w.a) (hb : 0 ≤ w.b) (hc : 0 ≤ w.c)
    (hsum : 0 < w.sum) (hmean : w.a * v.a + w.b * v.b + w.c * v.c = w.sum * n) :
    v.least ≤ n ∧ n ≤ v.greatest := by
  have hleast : v.least ≤ v.a ∧ v.least ≤ v.b ∧ v.least ≤ v.c := by
    simp only [Corners.least]
    omega
  have hgreatest : v.a ≤ v.greatest ∧ v.b ≤ v.greatest ∧ v.c ≤ v.greatest := by
    simp only [Corners.greatest]
    omega
  constructor
  · refine le_of_mul_le_mul_left ?_ hsum
    calc w.sum * v.least = w.a * v.least + w.b * v.least + w.c * v.least := by
          rw [Corners.sum, add_mul, add_mul]
      _ ≤ w.a * v.a + w.b * v.b + w.c * v.c := by
          gcongr
          · exact hleast.1
          · exact hleast.2.1
          · exact hleast.2.2
      _ = w.sum * n := hmean
  · refine le_of_mul_le_mul_left ?_ hsum
    calc w.sum * n = w.a * v.a + w.b * v.b + w.c * v.c := hmean.symm
      _ ≤ w.a * v.greatest + w.b * v.greatest + w.c * v.greatest := by
          gcongr
          · exact hgreatest.1
          · exact hgreatest.2.1
          · exact hgreatest.2.2
      _ = w.sum * v.greatest := by rw [Corners.sum, add_mul, add_mul]

/-- An enclosed center of the framebuffer is in the region that a triangle visits. -/
theorem Oriented.region_contains {tri : Oriented} (hgrid : OnGrid tri.points) {fb : Framebuffer}
    {x y : Int} (hfb : fb.contains x y = true) (h : Encloses tri.points (pixelCenter x y)) :
    (tri.region fb).Contains x y := by
  have hsum : (tri.weights x y).sum = signedArea tri.points := by
    rw [sum_weights, tri.area_eq]
  have hpos : 0 < (tri.weights x y).sum := by
    rw [sum_weights]
    exact tri.area_pos
  have hx := between_of_mean (v := tri.points.map Point.x) (n := (pixelCenter x y).x)
    h.bc h.ca h.ab hpos (by
      rw [hsum]
      simp only [weights, edgeValues, signedArea, edge, Corners.map]
      ring)
  have hy := between_of_mean (v := tri.points.map Point.y) (n := (pixelCenter x y).y)
    h.bc h.ca h.ab hpos (by
      rw [hsum]
      simp only [weights, edgeValues, signedArea, edge, Corners.map]
      ring)
  obtain ⟨⟨hax, hay⟩, ⟨hbx, hby⟩, ⟨hcx, hcy⟩⟩ := hgrid
  rw [Framebuffer.contains, inExtent_eq_true] at hfb
  simp only [pixelCenter, Corners.map, Corners.least, Corners.greatest] at hx hy
  simp only [Region.Contains, region, Corners.map, Corners.least, Corners.greatest]
  omega

end DisplayRaster
