import DisplayRaster.Triangle.Coverage
import Mathlib

/-!
# Triangles in the plane

Edge values are integers taken at pixel centers.  Here they are extended to the real plane
(`edgeAt`), so that they can be compared with the triangle as a set of points, `closedTriangle`: a
triangle in positive order lies on the inner side of its three edges, and a point on the inner side
of all three, with none of them through it, is an interior point.

`Enters p q d` says that the direction `d` leads from the point `q` into the triangle `p`.  Two
triangles into which one direction leads from the same point have interior points in common
(`not_disjoint_interior`).
-/

set_option autoImplicit false

namespace DisplayRaster

open Set Filter Topology

/-! ## Points of the plane -/

/-- The point at a position, in pixels. -/
noncomputable def Point.place (p : Point) : ℝ × ℝ := (p.x / 2, p.y / 2)

/-- The point at a vertex, in pixels. -/
def Vertex.place (v : Vertex) : ℝ × ℝ := (v.x.toInt, v.y.toInt)

/-- The point at the center of a pixel. -/
noncomputable def pixelMiddle (x y : Int) : ℝ × ℝ := (x + 1 / 2, y + 1 / 2)

/-- The points of a triangle, its boundary included. -/
def closedTriangle (v : Corners (ℝ × ℝ)) : Set (ℝ × ℝ) := convexHull ℝ {v.a, v.b, v.c}

theorem closedTriangle_flip (v : Corners (ℝ × ℝ)) : closedTriangle v.flip = closedTriangle v := by
  rw [closedTriangle, closedTriangle, Corners.flip, pair_comm]

/-- The edge value of a point of the plane. -/
noncomputable def edgeAt (a b : Point) (q : ℝ × ℝ) : ℝ :=
  (b.x - a.x) * (2 * q.2 - a.y) - (b.y - a.y) * (2 * q.1 - a.x)

theorem edgeAt_place (a b o : Point) : edgeAt a b o.place = edge a b o := by
  simp only [edgeAt, Point.place, edge]
  push_cast
  ring

theorem edgeAt_place_pos {a b o : Point} : 0 < edgeAt a b o.place ↔ 0 < edge a b o := by
  rw [edgeAt_place]
  exact Int.cast_pos

theorem edgeAt_place_nonneg {a b o : Point} : 0 ≤ edgeAt a b o.place ↔ 0 ≤ edge a b o := by
  rw [edgeAt_place]
  exact Int.cast_nonneg_iff

/-- Edge values are affine. -/
theorem edgeAt_add_smul (a b : Point) (q r : ℝ × ℝ) {s t : ℝ} (hst : s + t = 1) :
    edgeAt a b (s • q + t • r) = s * edgeAt a b q + t * edgeAt a b r := by
  obtain rfl : t = 1 - s := by linarith
  simp only [edgeAt, Prod.fst_add, Prod.snd_add, Prod.smul_fst, Prod.smul_snd, smul_eq_mul]
  ring

theorem continuous_edgeAt (a b : Point) : Continuous (edgeAt a b) := by
  unfold edgeAt
  fun_prop

theorem convex_edgeAt_nonneg (a b : Point) : Convex ℝ {q | 0 ≤ edgeAt a b q} := by
  intro q hq r hr s t hs ht hst
  rw [mem_ofPred_eq, edgeAt_add_smul a b q r hst]
  exact add_nonneg (mul_nonneg hs hq) (mul_nonneg ht hr)

/-! ## Inside of a triangle -/

/-- The points on the inner side of all edges. -/
def innerSide (p : Corners Point) : Set (ℝ × ℝ) :=
  {q | 0 < edgeAt p.b p.c q ∧ 0 < edgeAt p.c p.a q ∧ 0 < edgeAt p.a p.b q}

variable {p : Corners Point}

theorem edge_left (a b : Point) : edge a b a = 0 := by
  simp only [edge]
  ring

theorem edge_right (a b : Point) : edge a b b = 0 := by
  simp only [edge]
  ring

theorem edge_rotate (a b c : Point) : edge b c a = edge a b c := by
  simp only [edge]
  ring

/-- A triangle lies on the inner side of its edges. -/
theorem edgeAt_nonneg (hp : 0 ≤ signedArea p) {q : ℝ × ℝ}
    (hq : q ∈ closedTriangle (p.map Point.place)) :
    0 ≤ edgeAt p.b p.c q ∧ 0 ≤ edgeAt p.c p.a q ∧ 0 ≤ edgeAt p.a p.b q := by
  have hside (a b : Point) (ha : 0 ≤ edge a b p.a) (hb : 0 ≤ edge a b p.b)
      (hc : 0 ≤ edge a b p.c) : 0 ≤ edgeAt a b q := by
    refine convexHull_min ?_ (convex_edgeAt_nonneg a b) hq
    rintro r (rfl | rfl | rfl)
    · exact edgeAt_place_nonneg.2 ha
    · exact edgeAt_place_nonneg.2 hb
    · exact edgeAt_place_nonneg.2 hc
  have hbc : edge p.b p.c p.a = signedArea p := edge_rotate p.a p.b p.c
  have hca : edge p.c p.a p.b = signedArea p := (edge_rotate p.b p.c p.a).trans hbc
  exact ⟨hside p.b p.c (hp.trans_eq hbc.symm) (edge_left _ _).ge (edge_right _ _).ge,
    hside p.c p.a (edge_right _ _).ge (hp.trans_eq hca.symm) (edge_left _ _).ge,
    hside p.a p.b (edge_left _ _).ge (edge_right _ _).ge hp⟩

theorem isOpen_innerSide (p : Corners Point) : IsOpen (innerSide p) :=
  (isOpen_lt continuous_const (continuous_edgeAt _ _)).inter
    ((isOpen_lt continuous_const (continuous_edgeAt _ _)).inter
      (isOpen_lt continuous_const (continuous_edgeAt _ _)))

/-- A point is the mean of the corners, weighted by its edge values. -/
theorem edgeAt_smul_place (p : Corners Point) (q : ℝ × ℝ) :
    edgeAt p.b p.c q • p.a.place + edgeAt p.c p.a q • p.b.place + edgeAt p.a p.b q • p.c.place =
      (signedArea p : ℝ) • q := by
  simp only [edgeAt, Point.place, signedArea, edge]
  ext
  · simp
    ring
  · simp
    ring

theorem sum_edgeAt (p : Corners Point) (q : ℝ × ℝ) :
    edgeAt p.b p.c q + edgeAt p.c p.a q + edgeAt p.a p.b q = signedArea p := by
  simp only [edgeAt, signedArea, edge]
  push_cast
  ring

/-- A point on the outer side of no edge belongs to the triangle. -/
theorem mem_closedTriangle (hp : 0 < signedArea p) {q : ℝ × ℝ} (ha : 0 ≤ edgeAt p.b p.c q)
    (hb : 0 ≤ edgeAt p.c p.a q) (hc : 0 ≤ edgeAt p.a p.b q) :
    q ∈ closedTriangle (p.map Point.place) := by
  have hp : (0 : ℝ) < signedArea p := by exact_mod_cast hp
  refine mem_convexHull_of_exists_fintype
    ![edgeAt p.b p.c q / signedArea p, edgeAt p.c p.a q / signedArea p,
      edgeAt p.a p.b q / signedArea p]
    ![p.a.place, p.b.place, p.c.place] ?_ ?_ ?_ ?_
  · intro i
    fin_cases i
    · exact div_nonneg ha hp.le
    · exact div_nonneg hb hp.le
    · exact div_nonneg hc hp.le
  · rw [Fin.sum_univ_three]
    show edgeAt p.b p.c q / signedArea p + edgeAt p.c p.a q / signedArea p +
      edgeAt p.a p.b q / signedArea p = 1
    rw [← add_div, ← add_div, sum_edgeAt, div_self hp.ne']
  · intro i
    fin_cases i <;> simp [Corners.map]
  · rw [Fin.sum_univ_three]
    show (edgeAt p.b p.c q / signedArea p) • p.a.place +
      (edgeAt p.c p.a q / signedArea p) • p.b.place +
      (edgeAt p.a p.b q / signedArea p) • p.c.place = q
    simp only [div_eq_inv_mul, mul_smul, ← smul_add, edgeAt_smul_place]
    rw [smul_smul, inv_mul_cancel₀ hp.ne', one_smul]

theorem innerSide_subset (hp : 0 < signedArea p) :
    innerSide p ⊆ closedTriangle (p.map Point.place) := by
  rintro q ⟨ha, hb, hc⟩
  exact mem_closedTriangle hp ha.le hb.le hc.le

/-- The points on the inner side of all edges are interior points. -/
theorem innerSide_subset_interior (hp : 0 < signedArea p) :
    innerSide p ⊆ interior (closedTriangle (p.map Point.place)) :=
  interior_maximal (innerSide_subset hp) (isOpen_innerSide p)

/-! ## Ways into a triangle -/

/-- How fast the edge value grows in direction `(dx, dy)`. -/
def slope (a b : Point) (dx dy : Int) : Int := (b.x - a.x) * dy - (b.y - a.y) * dx

/-- A small step from `o` in direction `(dx, dy)` ends on the inner side of the edge from `a` to
`b`. -/
def EntersEdge (a b o : Point) (dx dy : Int) : Prop :=
  0 < edge a b o ∨ edge a b o = 0 ∧ 0 < slope a b dx dy

/-- A small step from `o` in direction `(dx, dy)` ends on the inner side of all edges. -/
structure Enters (p : Corners Point) (o : Point) (dx dy : Int) : Prop where
  bc : EntersEdge p.b p.c o dx dy
  ca : EntersEdge p.c p.a o dx dy
  ab : EntersEdge p.a p.b o dx dy

theorem edgeAt_step (a b o : Point) (dx dy : Int) (ε : ℝ) :
    edgeAt a b (o.place + ε • ((dx : ℝ), (dy : ℝ))) =
      edge a b o + 2 * ε * slope a b dx dy := by
  simp only [edgeAt, slope, Point.place, edge, Prod.fst_add, Prod.snd_add, Prod.smul_fst,
    Prod.smul_snd, smul_eq_mul]
  push_cast
  ring

theorem EntersEdge.eventually {a b o : Point} {dx dy : Int} (h : EntersEdge a b o dx dy) :
    ∀ᶠ ε : ℝ in 𝓝[>] 0, 0 < edgeAt a b (o.place + ε • ((dx : ℝ), (dy : ℝ))) := by
  simp only [edgeAt_step]
  rcases h with h | ⟨h, hd⟩
  · have h : (0 : ℝ) < edge a b o := by exact_mod_cast h
    have hc : Continuous fun ε : ℝ ↦ (edge a b o : ℝ) + 2 * ε * slope a b dx dy := by fun_prop
    have hzero : ∀ᶠ ε : ℝ in 𝓝 0, 0 < (edge a b o : ℝ) + 2 * ε * slope a b dx dy :=
      continuousAt_const.eventually_lt hc.continuousAt (by simpa using h)
    exact nhdsWithin_le_nhds hzero
  · filter_upwards [self_mem_nhdsWithin] with ε hε
    have hε : 0 < ε := hε
    have hd : (0 : ℝ) < slope a b dx dy := by exact_mod_cast hd
    rw [h]
    positivity

/-- **Two triangles with a common way in overlap.** -/
theorem not_disjoint_interior {p r : Corners Point} (hp : 0 < signedArea p) (hr : 0 < signedArea r)
    {o : Point} {dx dy : Int} (h₁ : Enters p o dx dy) (h₂ : Enters r o dx dy) :
    ¬ Disjoint (interior (closedTriangle (p.map Point.place)))
      (interior (closedTriangle (r.map Point.place))) := by
  have h : ∀ᶠ ε : ℝ in 𝓝[>] 0, o.place + ε • ((dx : ℝ), (dy : ℝ)) ∈ innerSide p ∩ innerSide r := by
    filter_upwards [h₁.bc.eventually, h₁.ca.eventually, h₁.ab.eventually, h₂.bc.eventually,
      h₂.ca.eventually, h₂.ab.eventually] with ε h₁ h₂ h₃ h₄ h₅ h₆
    exact ⟨⟨h₁, h₂, h₃⟩, ⟨h₄, h₅, h₆⟩⟩
  obtain ⟨ε, hε₁, hε₂⟩ := h.exists
  exact not_disjoint_iff.2
    ⟨_, innerSide_subset_interior hp hε₁, innerSide_subset_interior hr hε₂⟩

end DisplayRaster
