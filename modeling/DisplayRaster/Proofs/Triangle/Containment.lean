import DisplayRaster.Proofs.Texture.Perspective
import DisplayRaster.Proofs.Triangle.Range

/-!
# Pixels of a triangle and points of the plane

The pixels that a draw visits and covers are those of the framebuffer whose edge values pass the
fill rule (`covered_iff_fills`): the bounds that the draw goes by leave none of them out.  For a
triangle in the guard band this is containment of the center.  The points strictly inside the
triangle are those with positive edge values (`interior_closedTriangle`), so their pixels are
covered, and no covered pixel has its center outside.

At a covered pixel the edge values are weights, and a weighted mean does not leave the range of the
values at the vertices when it is rounded down.  This holds for depths and for texture coordinates,
under perspective for the vertices that have a perspective weight
(`Oriented.interpolatesWithin`).
-/

set_option autoImplicit false

namespace DisplayRaster

open Set

/-! ## The fill rule -/

/-- A point passes an edge: it is on the inner side, or on the edge itself if that goes up the image
or level to the right. -/
def FillsEdge (a b o : Point) : Prop :=
  0 < edge a b o ∨ edge a b o = 0 ∧ (b.y < a.y ∨ b.y = a.y ∧ a.x < b.x)

/-- A point passes all edges of a triangle in positive order. -/
structure Fills (p : Corners Point) (o : Point) : Prop where
  bc : FillsEdge p.b p.c o
  ca : FillsEdge p.c p.a o
  ab : FillsEdge p.a p.b o

theorem coversValues_iff_fills {p : Corners Point} {o : Point} :
    coversValues p (edgeValues p o) = true ↔ Fills p o := by
  simp only [coversValues, edgeValues, Bool.and_eq_true, admits_eq_true]
  constructor
  · rintro ⟨⟨hbc, hca⟩, hab⟩
    exact ⟨hbc, hca, hab⟩
  · rintro ⟨hbc, hca, hab⟩
    exact ⟨⟨hbc, hca⟩, hab⟩

/-- **The bounds of a triangle leave out no pixel** that passes the fill rule. -/
theorem covered_iff_fills {v : Corners Vertex} {tri : Oriented}
    (htri : Oriented.ofVertices v = some tri) (fb : Framebuffer) (x y : Int) :
    Covered fb v x y ↔ fb.contains x y = true ∧ Fills tri.points (pixelCenter x y) := by
  rw [covered_iff htri, ← coversValues_iff_fills]
  rfl

/-! ## Containment -/

section

variable {p : Corners Point} (hp : 0 < signedArea p)

include hp

/-- The corners of a triangle with an area differ. -/
theorem corners_ne : p.b ≠ p.c ∧ p.c ≠ p.a ∧ p.a ≠ p.b :=
  ⟨ne_of_edge_pos (hp.trans_eq (edge_rotate p.a p.b p.c).symm),
    ne_of_edge_pos (hp.trans_eq
      ((edge_rotate p.b p.c p.a).trans (edge_rotate p.a p.b p.c)).symm),
    ne_of_edge_pos hp⟩

/-- The interior of a triangle is on the inner side of its edges. -/
theorem interior_closedTriangle :
    interior (closedTriangle (p.map Point.place)) = innerSide p := by
  obtain ⟨hbc, hca, hab⟩ := corners_ne hp
  refine Subset.antisymm ?_ (innerSide_subset_interior hp)
  intro q hq
  refine ⟨?_, ?_, ?_⟩
  · exact edgeAt_pos_of_mem_interior hbc (fun q hq ↦ (edgeAt_nonneg hp.le hq).1) hq
  · exact edgeAt_pos_of_mem_interior hca (fun q hq ↦ (edgeAt_nonneg hp.le hq).2.1) hq
  · exact edgeAt_pos_of_mem_interior hab (fun q hq ↦ (edgeAt_nonneg hp.le hq).2.2) hq

end

section

variable {v : Corners Vertex} {tri : Oriented} (h : Ordered v tri) {x y : Int}

include h

theorem Ordered.fills_of_mem_interior
    (hmem : pixelMiddle x y ∈ interior (closedTriangle (v.map Vertex.place))) :
    Fills tri.points (pixelCenter x y) := by
  rw [← h.closedTriangle_eq, interior_closedTriangle h.signedArea_pos, ← place_pixelCenter] at hmem
  obtain ⟨hbc, hca, hab⟩ := hmem
  exact ⟨.inl (edgeAt_place_pos.1 hbc), .inl (edgeAt_place_pos.1 hca),
    .inl (edgeAt_place_pos.1 hab)⟩

theorem Ordered.mem_of_encloses (hencloses : Encloses tri.points (pixelCenter x y)) :
    pixelMiddle x y ∈ closedTriangle (v.map Vertex.place) := by
  obtain ⟨hbc, hca, hab⟩ := hencloses
  rw [← h.closedTriangle_eq, ← place_pixelCenter]
  exact mem_closedTriangle h.signedArea_pos (edgeAt_place_nonneg.2 hbc)
    (edgeAt_place_nonneg.2 hca) (edgeAt_place_nonneg.2 hab)

end

/-- The area of a triangle in the guard band, whichever way round its vertices go. -/
theorem InBand.area_eq {v : Corners Vertex} (hband : InBand v) {tri : Oriented}
    (htri : Oriented.ofVertices v = some tri) : tri.area = 4 * |twiceArea v| := by
  have harea := tri.area_eq
  have hpos := tri.area_pos
  rw [tri.points_eq] at harea
  rcases Oriented.vertices_eq_or_flip htri with heq | heq
  · rw [heq, hband.signedArea_eq] at harea
    rw [abs_of_pos (by omega)]
    exact harea
  · rw [heq, Corners.map_flip, signedArea_flip, hband.signedArea_eq] at harea
    rw [abs_of_neg (by omega)]
    omega

/-! ## Interpolation -/

/-- What a triangle interpolates at a pixel lies between the values at the vertices. -/
structure Oriented.InterpolatesWithin (tri : Oriented) (v : Corners Vertex) (x y : Int) : Prop where
  weights_nonneg : (tri.weights x y).All (0 ≤ ·)
  sum_weights : (tri.weights x y).sum = tri.area
  /-- The depth is the mean, rounded down; it is not clamped. -/
  depth_eq : ((tri.depthAt (tri.weights x y)).toNat : Int) =
    TextureCoord.weightedSum (tri.weights x y) (tri.vertices.map fun v ↦ (v.z.toNat : Int)) /
      tri.area
  depth : Between (v.toList.map fun v ↦ (v.z.toNat : Int)) (tri.depthAt (tri.weights x y)).toNat
  affine_s : Between (v.toList.map fun v ↦ v.s.toInt)
    ((tri.coordAt .affine x y).s / (tri.coordAt .affine x y).den)
  affine_t : Between (v.toList.map fun v ↦ v.t.toInt)
    ((tri.coordAt .affine x y).t / (tri.coordAt .affine x y).den)
  /-- Vertices whose perspective weight is zero do not count under perspective. -/
  perspective : TextureCoord.BetweenParts v (tri.coordAt .perspective x y)

/-- **Interpolation stays between the vertices** at every pixel that a triangle covers. -/
theorem Oriented.interpolatesWithin {v : Corners Vertex} {tri : Oriented}
    (htri : ofVertices v = some tri) {x y : Int} (hcovers : tri.covers x y = true) :
    tri.InterpolatesWithin v x y := by
  have hsub := vertices_subset htri
  have hw := weights_nonneg hcovers
  have hsum := tri.sum_weights x y
  have hpos : 0 < (tri.weights x y).sum := hsum.symm ▸ tri.area_pos
  have hmem : ((tri.weights x y).zipWith Prod.mk tri.vertices).All fun p ↦
      p.1 ≠ 0 → p.2 ∈ v.toList := by
    obtain ⟨ha, hb, hc⟩ := tri.vertices.all_mem_toList
    exact ⟨fun _ ↦ hsub ha, fun _ ↦ hsub hb, fun _ ↦ hsub hc⟩
  have hmean (value : Vertex → Int) : Between (v.toList.map value)
      (TextureCoord.weightedSum (tri.weights x y) (tri.vertices.map value) / tri.area) := by
    rw [← hsum]
    exact Corners.between_floor hw hpos hmem value
  have hdepth := toNat_depthAt hcovers
  refine ⟨hw, hsum, hdepth, ?_, hmean _, hmean _, ?_⟩
  · rw [hdepth]
    exact hmean _
  · exact (TextureCoord.betweenParts_perspective hw tri.vertices).mono hsub

/-! ## Coverage -/

/-- **Coverage is containment.**  A triangle with an area, in the guard band, covers the pixels of
the framebuffer that pass the fill rule; these are the ones whose centers are inside the triangle,
some of those with their centers on its boundary, and none with their centers outside.  At each of
them interpolation stays between the vertices. -/
theorem coverage_is_containment {v : Corners Vertex} (hband : InBand v) (harea : twiceArea v ≠ 0)
    (fb : Framebuffer) :
    ∃ tri, Oriented.ofVertices v = some tri ∧ tri.area = 4 * |twiceArea v| ∧ ∀ x y,
      (Covered fb v x y ↔ fb.contains x y = true ∧ Fills tri.points (pixelCenter x y)) ∧
      (fb.contains x y = true →
        pixelMiddle x y ∈ interior (closedTriangle (v.map Vertex.place)) → Covered fb v x y) ∧
      (Covered fb v x y → pixelMiddle x y ∈ closedTriangle (v.map Vertex.place) ∧
        tri.InterpolatesWithin v x y) := by
  obtain ⟨tri, h⟩ := exists_ordered hband harea
  refine ⟨tri, h.ofVertices_eq, hband.area_eq h.ofVertices_eq, ?_⟩
  intro x y
  refine ⟨covered_iff_fills h.ofVertices_eq fb x y, ?_, ?_⟩
  · intro hfb hinside
    rw [covered_iff_fills h.ofVertices_eq]
    exact ⟨hfb, h.fills_of_mem_interior hinside⟩
  · intro hcovered
    obtain ⟨-, hcovers⟩ := (covered_iff h.ofVertices_eq).1 hcovered
    exact ⟨h.mem_of_encloses (encloses_of_covers hcovers),
      Oriented.interpolatesWithin h.ofVertices_eq hcovers⟩

/-- A triangle in negative order.  It covers the pixel in the corner of the framebuffer, and not the
one whose center is on the long edge. -/
theorem coverage_is_containment_turned :
    let v : Corners Vertex := ⟨⟨0, 0, -5, 0, 1, 9⟩, ⟨0, 4, 3, 8, 0, 200⟩, ⟨4, 0, 2, -1, 7, 65535⟩⟩
    let fb : Framebuffer := ⟨0, 4, 4, 4⟩
    ∃ tri, Oriented.ofVertices v = some tri ∧ tri.area = 64 ∧ Covered fb v 0 0 ∧
      tri.InterpolatesWithin v 0 0 ∧ ¬ Covered fb v 1 2 := by
  intro v fb
  have hband : InBand v := by
    refine ⟨⟨?_, ?_⟩, ⟨?_, ?_⟩, ⟨?_, ?_⟩⟩ <;> decide
  have hinside : pixelMiddle 0 0 ∈ interior (closedTriangle (v.map Vertex.place)) := by
    rw [← closedTriangle_flip, ← hband.map_place_point, ← Corners.map_flip,
      interior_closedTriangle (by decide), ← place_pixelCenter]
    exact ⟨edgeAt_place_pos.2 (by decide), edgeAt_place_pos.2 (by decide),
      edgeAt_place_pos.2 (by decide)⟩
  obtain ⟨tri, htri, harea, h⟩ := coverage_is_containment hband (by decide) fb
  have hcovered := (h 0 0).2.1 (by decide) hinside
  refine ⟨tri, htri, harea, hcovered, ((h 0 0).2.2 hcovered).2, ?_⟩
  intro hedge
  have hpoints : tri.points = (v.map Vertex.point).flip := by
    rw [Oriented.ofVertices_of_neg (by decide), Option.some.injEq] at htri
    rw [← htri]
  have hfills := ((h 1 2).1.1 hedge).2.bc
  rw [hpoints] at hfills
  exact absurd hfills (by unfold FillsEdge; decide)

end DisplayRaster
