import DisplayRaster.Proofs.Triangle.FillRule
import DisplayRaster.Proofs.Triangle.Orientation
import DisplayRaster.Triangle.Draw

/-!
# Meshes without cracks or double pixels

What a draw does to a pixel (`Covered`) is compared with the triangle as its vertices give it, a set
of points of the plane.  For triangles inside the guard band the two agree well enough that a mesh
of triangles draws every pixel at most once, and every pixel whose center it contains
(`covered_exactly_once`).
-/

set_option autoImplicit false

namespace DisplayRaster

/-! ## Covered pixels -/

/-- A draw of the triangle visits the pixel and finds it covered. -/
def Covered (fb : Framebuffer) (v : Corners Vertex) (x y : Int) : Prop :=
  ∃ tri, Oriented.ofVertices v = some tri ∧ (tri.region fb).Contains x y ∧ tri.covers x y = true

/-- A draw writes fragments at the covered pixels of its region and nowhere else. -/
theorem drawTriangle_eq_foldl {μ : Type} [Memory μ] (fb : Framebuffer) {st : RenderState} (m : μ)
    {v : Corners Vertex} {source? : Option TexelSource} (projection : Projection)
    (carriesDepth : Bool) {paint : Paint} {tri : Oriented}
    (hpaint : Paint.choose st source? = some paint) (htri : Oriented.ofVertices v = some tri) :
    drawTriangle fb st m v source? projection carriesDepth =
      ((tri.region fb).rowMajor.filter fun p ↦ tri.covers p.1 p.2).foldl (fun m p ↦
        match tri.fragment st paint projection (carriesDepth && st.testsDepth) m p.1 p.2 with
        | some f => f.write fb st m
        | none => m) m := by
  rw [drawTriangle, hpaint, htri, List.foldl_filter]
  simp only [Region.foldRows_eq_foldl]
  congr 1
  funext m p
  by_cases hcovers : tri.covers p.1 p.2 = true
  · exact (if_pos hcovers).symm
  · have hnone : tri.fragment st paint projection (carriesDepth && st.testsDepth) m p.1 p.2 =
        none := by
      rw [← Option.not_isSome_iff_eq_none, Oriented.isSome_fragment]
      exact hcovers
    rw [if_neg hcovers, hnone]

/-! ## Triangles of vertices -/

/-- Twice the signed area of a triangle, in pixels. -/
def twiceArea (v : Corners Vertex) : Int :=
  (v.b.x.toInt - v.a.x.toInt) * (v.c.y.toInt - v.a.y.toInt) -
    (v.b.y.toInt - v.a.y.toInt) * (v.c.x.toInt - v.a.x.toInt)

/-- A vertex in the guard band, where no coordinate is cut. -/
structure Vertex.InBand (v : Vertex) : Prop where
  abs_x_le : |v.x.toInt| ≤ 2 ^ 24
  abs_y_le : |v.y.toInt| ≤ 2 ^ 24

/-- A triangle in the guard band. -/
structure InBand (v : Corners Vertex) : Prop where
  a : v.a.InBand
  b : v.b.InBand
  c : v.c.InBand

theorem halfPixels_of_abs_le {coord : Int32} (h : |coord.toInt| ≤ 2 ^ 24) :
    halfPixels coord = coord.toInt * 2 := by
  rw [abs_le] at h
  rw [halfPixels, guardBand]
  omega

theorem halfPixels_even (coord : Int32) : halfPixels coord % 2 = 0 := Int.mul_emod_left _ 2

theorem onGrid_map_point (v : Corners Vertex) : OnGrid (v.map Vertex.point) :=
  ⟨⟨halfPixels_even _, halfPixels_even _⟩, ⟨halfPixels_even _, halfPixels_even _⟩,
    ⟨halfPixels_even _, halfPixels_even _⟩⟩

theorem Oriented.onGrid (tri : Oriented) : OnGrid tri.points :=
  tri.points_eq ▸ onGrid_map_point tri.vertices

/-- A draw visits the pixels of the framebuffer that the triangle covers. -/
theorem Oriented.contains_region {tri : Oriented} {fb : Framebuffer} {x y : Int}
    (hfb : fb.contains x y = true) (h : tri.covers x y = true) : (tri.region fb).Contains x y :=
  region_contains tri.onGrid hfb (encloses_of_covers h)

/-- A draw stays within the framebuffer. -/
theorem Oriented.contains_of_region {tri : Oriented} {fb : Framebuffer} {x y : Int}
    (h : (tri.region fb).Contains x y) : fb.contains x y = true := by
  rw [Framebuffer.contains, inExtent_eq_true]
  simp only [Region.Contains, region] at h
  omega

/-- The bounds that a draw goes by leave out none of the pixels that the triangle covers. -/
theorem covered_iff {v : Corners Vertex} {tri : Oriented} (htri : Oriented.ofVertices v = some tri)
    {fb : Framebuffer} {x y : Int} :
    Covered fb v x y ↔ fb.contains x y = true ∧ tri.covers x y = true := by
  constructor
  · rintro ⟨tri', htri', hregion, hcovers⟩
    rw [htri, Option.some.injEq] at htri'
    subst htri'
    exact ⟨Oriented.contains_of_region hregion, hcovers⟩
  · rintro ⟨hfb, hcovers⟩
    exact ⟨tri, htri, Oriented.contains_region hfb hcovers, hcovers⟩

theorem Vertex.InBand.place_point {v : Vertex} (h : v.InBand) : v.point.place = v.place := by
  rw [Point.place, point, place, halfPixels_of_abs_le h.abs_x_le, halfPixels_of_abs_le h.abs_y_le]
  push_cast
  rw [mul_div_cancel_right₀ _ two_ne_zero, mul_div_cancel_right₀ _ two_ne_zero]

theorem InBand.map_place_point {v : Corners Vertex} (h : InBand v) :
    (v.map Vertex.point).map Point.place = v.map Vertex.place := by
  simp only [Corners.map, h.a.place_point, h.b.place_point, h.c.place_point]

theorem InBand.signedArea_eq {v : Corners Vertex} (h : InBand v) :
    signedArea (v.map Vertex.point) = 4 * twiceArea v := by
  obtain ⟨⟨hax, hay⟩, ⟨hbx, hby⟩, ⟨hcx, hcy⟩⟩ := h
  simp only [signedArea, edge, Corners.map, Vertex.point, twiceArea, halfPixels_of_abs_le hax,
    halfPixels_of_abs_le hay, halfPixels_of_abs_le hbx, halfPixels_of_abs_le hby,
    halfPixels_of_abs_le hcx, halfPixels_of_abs_le hcy]
  ring

theorem place_pixelCenter (x y : Int) : (pixelCenter x y).place = pixelMiddle x y := by
  rw [Point.place, pixelCenter, pixelMiddle]
  push_cast
  rw [add_div, add_div, mul_div_cancel_left₀ _ two_ne_zero, mul_div_cancel_left₀ _ two_ne_zero]

/-! ## Orientation -/

/-- A triangle with an area, put into positive order. -/
structure Ordered (v : Corners Vertex) (tri : Oriented) : Prop where
  ofVertices_eq : Oriented.ofVertices v = some tri
  onGrid : OnGrid tri.points
  signedArea_pos : 0 < signedArea tri.points
  closedTriangle_eq :
    closedTriangle (tri.points.map Point.place) = closedTriangle (v.map Vertex.place)

theorem exists_ordered {v : Corners Vertex} (hband : InBand v) (harea : twiceArea v ≠ 0) :
    ∃ tri, Ordered v tri := by
  have hne : signedArea (v.map Vertex.point) ≠ 0 := by
    rw [hband.signedArea_eq]
    omega
  obtain ⟨tri, htri⟩ := Oriented.exists_ofVertices hne
  refine ⟨tri, htri, ?_, tri.area_eq ▸ tri.area_pos, ?_⟩
  · rw [tri.points_eq]
    exact onGrid_map_point tri.vertices
  · rw [tri.points_eq]
    rcases Oriented.vertices_eq_or_flip htri with heq | heq
    · rw [heq, hband.map_place_point]
    · rw [heq, Corners.map_flip, Corners.map_flip, closedTriangle_flip, hband.map_place_point]

section

variable {v : Corners Vertex} {tri : Oriented} (h : Ordered v tri) {fb : Framebuffer} {x y : Int}

include h

theorem Ordered.encloses (hmem : pixelMiddle x y ∈ closedTriangle (v.map Vertex.place)) :
    Encloses tri.points (pixelCenter x y) := by
  rw [← h.closedTriangle_eq, ← place_pixelCenter] at hmem
  obtain ⟨hbc, hca, hab⟩ := edgeAt_nonneg h.signedArea_pos.le hmem
  exact ⟨edgeAt_place_nonneg.1 hbc, edgeAt_place_nonneg.1 hca, edgeAt_place_nonneg.1 hab⟩

theorem Ordered.covered_iff (hfb : fb.contains x y = true) :
    Covered fb v x y ↔ tri.covers x y = true :=
  (DisplayRaster.covered_iff h.ofVertices_eq).trans (and_iff_right hfb)

end

/-! ## Meshes -/

/-- Interior points of a set on the inner side of an edge are not on the edge. -/
theorem edgeAt_pos_of_mem_interior {a b : Point} (hab : a ≠ b) {s : Set (ℝ × ℝ)}
    (hs : ∀ q ∈ s, 0 ≤ edgeAt a b q) {q : ℝ × ℝ} (hq : q ∈ interior s) : 0 < edgeAt a b q := by
  have hc : Continuous fun ε : ℝ ↦ q + ε • ((b.y - a.y : ℝ), -(b.x - a.x : ℝ)) := by fun_prop
  have hnear : ∀ᶠ ε : ℝ in nhdsWithin 0 (Set.Ioi 0),
      q + ε • ((b.y - a.y : ℝ), -(b.x - a.x : ℝ)) ∈ interior s := by
    refine nhdsWithin_le_nhds (hc.continuousAt.eventually_mem (isOpen_interior.mem_nhds ?_))
    simpa using hq
  obtain ⟨ε, hmem, hε⟩ := (hnear.and self_mem_nhdsWithin).exists
  have hε : 0 < ε := hε
  have hlen : (0 : ℝ) < lengthSq a b := by exact_mod_cast lengthSq_pos hab
  have hback : edgeAt a b (q + ε • ((b.y - a.y : ℝ), -(b.x - a.x : ℝ))) =
      edgeAt a b q - 2 * ε * lengthSq a b := by
    simp only [edgeAt, lengthSq, Prod.fst_add, Prod.snd_add, Prod.smul_fst, Prod.smul_snd,
      smul_eq_mul]
    push_cast
    ring
  have h := hs _ (interior_subset hmem)
  rw [hback] at h
  have := mul_pos (mul_pos two_pos hε) hlen
  linarith

/-- Triangles in positive order that share an edge do not overlap. -/
theorem disjoint_interior_of_shared_edge {p r : Corners Point} (hp : 0 < signedArea p)
    (hr : 0 < signedArea r) (ha : r.a = p.a) (hb : r.b = p.c) :
    Disjoint (interior (closedTriangle (p.map Point.place)))
      (interior (closedTriangle (r.map Point.place))) := by
  have hne : r.a ≠ r.b := ne_of_edge_pos hr
  rw [Set.disjoint_left]
  intro q hqp hqr
  have h₁ := edgeAt_pos_of_mem_interior hne (fun q hq ↦ (edgeAt_nonneg hr.le hq).2.2) hqr
  have h₂ := edgeAt_pos_of_mem_interior hne.symm (fun q hq ↦ by
    rw [ha, hb]
    exact (edgeAt_nonneg hp.le hq).2.1) hqp
  have hsum : edgeAt r.a r.b q + edgeAt r.b r.a q = 0 := by
    simp only [edgeAt]
    ring
  linarith

/-- **The fill rule draws every pixel of a mesh exactly once.**  Of two triangles with an area and
without common interior points, in whatever order their vertices are given, no pixel is covered by
both, and a pixel whose center lies in both, on their boundaries that is, is covered by exactly
one. -/
theorem covered_exactly_once {A B : Corners Vertex} (hA : InBand A) (hB : InBand B)
    (hareaA : twiceArea A ≠ 0) (hareaB : twiceArea B ≠ 0)
    (hdisjoint : Disjoint (interior (closedTriangle (A.map Vertex.place)))
      (interior (closedTriangle (B.map Vertex.place))))
    (fb : Framebuffer) (x y : Int) (hfb : fb.contains x y = true) :
    ¬ (Covered fb A x y ∧ Covered fb B x y) ∧
      (pixelMiddle x y ∈ closedTriangle (A.map Vertex.place) →
        pixelMiddle x y ∈ closedTriangle (B.map Vertex.place) →
        Xor (Covered fb A x y) (Covered fb B x y)) := by
  obtain ⟨a, ha⟩ := exists_ordered hA hareaA
  obtain ⟨b, hb⟩ := exists_ordered hB hareaB
  rw [← ha.closedTriangle_eq, ← hb.closedTriangle_eq] at hdisjoint
  have honce (h₁ : Encloses a.points (pixelCenter x y)) (h₂ : Encloses b.points (pixelCenter x y)) :
      b.covers x y = !a.covers x y :=
    covers_eq_not ha.signedArea_pos hb.signedArea_pos ha.onGrid hb.onGrid hdisjoint h₁ h₂
  rw [ha.covered_iff hfb, hb.covered_iff hfb]
  constructor
  · rintro ⟨h₁, h₂⟩
    have h := honce (encloses_of_covers h₁) (encloses_of_covers h₂)
    rw [h₁, h₂] at h
    exact absurd h (by decide)
  · intro h₁ h₂
    rw [honce (ha.encloses h₁) (hb.encloses h₂)]
    cases a.covers x y
    · exact .inr ⟨rfl, by decide⟩
    · exact .inl ⟨rfl, by decide⟩

/-- A square cut along its diagonal, and a pixel with its center on the cut. -/
theorem covered_exactly_once_square :
    let A : Corners Vertex := ⟨.position 0 0, .position 2 0, .position 2 2⟩
    let B : Corners Vertex := ⟨.position 0 0, .position 2 2, .position 0 2⟩
    ¬ (Covered ⟨0, 2, 2, 2⟩ A 0 0 ∧ Covered ⟨0, 2, 2, 2⟩ B 0 0) ∧
      Xor (Covered ⟨0, 2, 2, 2⟩ A 0 0) (Covered ⟨0, 2, 2, 2⟩ B 0 0) := by
  intro A B
  have hA : InBand A := by
    refine ⟨⟨?_, ?_⟩, ⟨?_, ?_⟩, ⟨?_, ?_⟩⟩ <;> decide
  have hB : InBand B := by
    refine ⟨⟨?_, ?_⟩, ⟨?_, ?_⟩, ⟨?_, ?_⟩⟩ <;> decide
  have hdisjoint : Disjoint (interior (closedTriangle (A.map Vertex.place)))
      (interior (closedTriangle (B.map Vertex.place))) := by
    rw [← hA.map_place_point, ← hB.map_place_point]
    exact disjoint_interior_of_shared_edge (by decide) (by decide) rfl rfl
  have hmiddle : pixelMiddle 0 0 ∈ segment ℝ ((0 : ℝ), (0 : ℝ)) (2, 2) := by
    refine ⟨3 / 4, 1 / 4, by norm_num, by norm_num, by norm_num, ?_⟩
    simp [pixelMiddle]
    norm_num
  have hmemA : pixelMiddle 0 0 ∈ closedTriangle (A.map Vertex.place) := by
    refine segment_subset_convexHull ?_ ?_ hmiddle
    · simp [A, Corners.map, Vertex.place, Vertex.position, Vertex.textured]
    · simp [A, Corners.map, Vertex.place, Vertex.position, Vertex.textured]
  have hmemB : pixelMiddle 0 0 ∈ closedTriangle (B.map Vertex.place) := by
    refine segment_subset_convexHull ?_ ?_ hmiddle
    · simp [B, Corners.map, Vertex.place, Vertex.position, Vertex.textured]
    · simp [B, Corners.map, Vertex.place, Vertex.position, Vertex.textured]
  obtain ⟨hboth, hone⟩ := covered_exactly_once hA hB (by decide) (by decide) hdisjoint
    ⟨0, 2, 2, 2⟩ 0 0 (by decide)
  exact ⟨hboth, hone hmemA hmemB⟩

end DisplayRaster
