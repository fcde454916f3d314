import DisplayRaster.Triangle.Coverage
import Mathlib.Data.List.Perm.Basic

/-!
# The order of the corners

A triangle is put into positive order before it is drawn, so the order in which its corners are
given has little effect: turning the triangle over has none at all (`Oriented.ofVertices_flip`), and
the next corner in turn as the first one only moves the corners on (`Oriented.ofVertices_rotate`).
All six orders come from these two (`Corners.eq_of_perm`).
-/

set_option autoImplicit false

namespace DisplayRaster

namespace Corners

/-- The corners in turn, from the second one on. -/
def rotate {α : Type} (v : Corners α) : Corners α := ⟨v.b, v.c, v.a⟩

@[simp]
theorem map_rotate {α β : Type} (f : α → β) (v : Corners α) :
    v.rotate.map f = (v.map f).rotate :=
  rfl

theorem perm_rotate {α : Type} (v : Corners α) : v.toList.Perm v.rotate.toList :=
  (List.perm_append_comm : ([v.a] ++ [v.b, v.c]).Perm ([v.b, v.c] ++ [v.a]))

theorem perm_flip {α : Type} (v : Corners α) : v.toList.Perm v.flip.toList :=
  .cons v.a (.swap v.c v.b [])

/-- What does not change when the corners are turned over or taken in turn is the same for every
order of them. -/
theorem eq_of_perm {α β : Type} {f : Corners α → β} (hflip : ∀ v, f v.flip = f v)
    (hrotate : ∀ v, f v.rotate = f v) {v w : Corners α} (h : w.toList.Perm v.toList) :
    f w = f v := by
  have hfirst {v : Corners α} (ha : w.a = v.a) (h : w.toList.Perm v.toList) : f w = f v := by
    have hrest : [w.b, w.c].Perm [v.b, v.c] := by
      rw [toList, toList, ha] at h
      exact h.cons_inv
    have hb : w.b = v.b ∨ w.b = v.c := by
      simpa using hrest.subset List.mem_cons_self
    rcases hb with hb | hb
    · rw [hb] at hrest
      have hc : w.c = v.c := by simpa using hrest.cons_inv
      have heq : w = v := by
        cases w
        cases v
        simp_all
      rw [heq]
    · rw [hb] at hrest
      have hc : w.c = v.b := by
        simpa using (hrest.trans (List.Perm.swap v.c v.b [])).cons_inv
      have heq : w = v.flip := by
        cases w
        cases v
        simp_all [flip]
      rw [heq, hflip]
  have hmem : w.a = v.a ∨ w.a = v.b ∨ w.a = v.c := by
    simpa [toList] using h.subset List.mem_cons_self
  rcases hmem with ha | ha | ha
  · exact hfirst ha h
  · rw [hfirst (v := v.rotate) ha (h.trans v.perm_rotate), hrotate]
  · rw [hfirst (v := v.rotate.rotate) ha
      ((h.trans v.perm_rotate).trans v.rotate.perm_rotate), hrotate, hrotate]

end Corners

theorem signedArea_rotate (p : Corners Point) : signedArea p.rotate = signedArea p := by
  simp only [signedArea, edge, Corners.rotate]
  grind

namespace Oriented

/-! ## Putting a triangle into order -/

/-- A triangle in positive order keeps its corners. -/
theorem ofVertices_of_pos {v : Corners Vertex} (h : 0 < signedArea (v.map Vertex.point)) :
    ofVertices v = some ⟨v, v.map Vertex.point, signedArea (v.map Vertex.point), rfl, rfl, h⟩ :=
  dif_pos h

/-- A triangle in negative order is turned over. -/
theorem ofVertices_of_neg {v : Corners Vertex} (h : signedArea (v.map Vertex.point) < 0) :
    ofVertices v = some ⟨v.flip, (v.map Vertex.point).flip, -signedArea (v.map Vertex.point), rfl,
      (signedArea_flip _).symm, Int.neg_pos.2 h⟩ :=
  (dif_neg (by omega)).trans (dif_pos h)

theorem ofVertices_of_zero {v : Corners Vertex} (h : signedArea (v.map Vertex.point) = 0) :
    ofVertices v = none :=
  (dif_neg (by omega)).trans (dif_neg (by omega))

/-- A triangle with an area is drawn. -/
theorem exists_ofVertices {v : Corners Vertex} (h : signedArea (v.map Vertex.point) ≠ 0) :
    ∃ tri, ofVertices v = some tri := by
  rcases Int.lt_or_gt_of_ne h with hneg | hpos
  · exact ⟨_, ofVertices_of_neg hneg⟩
  · exact ⟨_, ofVertices_of_pos hpos⟩

theorem ext_vertices {tri tri' : Oriented} (h : tri.vertices = tri'.vertices) : tri = tri' := by
  obtain ⟨v, p, area, hp, harea, hpos⟩ := tri
  obtain ⟨v', p', area', hp', harea', hpos'⟩ := tri'
  simp only at h
  subst h hp hp' harea harea'
  rfl

/-- The corners of a triangle are those it is given, in one of two orders. -/
theorem vertices_eq_or_flip {v : Corners Vertex} {tri : Oriented} (h : ofVertices v = some tri) :
    tri.vertices = v ∨ tri.vertices = v.flip := by
  rcases Int.lt_trichotomy (signedArea (v.map Vertex.point)) 0 with hneg | hzero | hpos
  · rw [ofVertices_of_neg hneg, Option.some.injEq] at h
    exact .inr (h ▸ rfl)
  · rw [ofVertices_of_zero hzero] at h
    cases h
  · rw [ofVertices_of_pos hpos, Option.some.injEq] at h
    exact .inl (h ▸ rfl)

theorem vertices_subset {v : Corners Vertex} {tri : Oriented} (h : ofVertices v = some tri) :
    tri.vertices.toList ⊆ v.toList := by
  rcases vertices_eq_or_flip h with heq | heq
  · rw [heq]
    exact List.Subset.refl _
  · rw [heq]
    exact v.perm_flip.symm.subset

/-- Triangles with corners on the same points are put into order in the same way. -/
theorem ofVertices_congr {v w : Corners Vertex}
    (hpoint : v.map Vertex.point = w.map Vertex.point) :
    (ofVertices v = none ∧ ofVertices w = none) ∨
      ∃ tri tri', ofVertices v = some tri ∧ ofVertices w = some tri' ∧
        tri.points = tri'.points ∧ tri.area = tri'.area ∧
          (tri.vertices = v ∧ tri'.vertices = w ∨ tri.vertices = v.flip ∧ tri'.vertices = w.flip) := by
  have harea : signedArea (v.map Vertex.point) = signedArea (w.map Vertex.point) := by rw [hpoint]
  rcases Int.lt_trichotomy (signedArea (v.map Vertex.point)) 0 with hneg | hzero | hpos
  · exact .inr ⟨_, _, ofVertices_of_neg hneg, ofVertices_of_neg (harea ▸ hneg),
      congrArg Corners.flip hpoint, congrArg Int.neg harea, .inr ⟨rfl, rfl⟩⟩
  · exact .inl ⟨ofVertices_of_zero hzero, ofVertices_of_zero (harea ▸ hzero)⟩
  · exact .inr ⟨_, _, ofVertices_of_pos hpos, ofVertices_of_pos (harea ▸ hpos), hpoint, harea,
      .inl ⟨rfl, rfl⟩⟩

/-! ## Other orders -/

/-- A triangle turned over before it is put into order. -/
theorem ofVertices_flip (v : Corners Vertex) : ofVertices v.flip = ofVertices v := by
  have harea : signedArea (v.flip.map Vertex.point) = -signedArea (v.map Vertex.point) := by
    rw [Corners.map_flip, signedArea_flip]
  rcases Int.lt_trichotomy (signedArea (v.map Vertex.point)) 0 with hneg | hzero | hpos
  · rw [ofVertices_of_neg hneg, ofVertices_of_pos (show 0 < _ by omega)]
    exact congrArg some (ext_vertices rfl)
  · rw [ofVertices_of_zero hzero, ofVertices_of_zero (by omega)]
  · rw [ofVertices_of_pos hpos, ofVertices_of_neg (show _ < 0 by omega)]
    exact congrArg some (ext_vertices rfl)

/-- The same triangle with its corners moved on. -/
def rotate (tri : Oriented) : Oriented where
  vertices := tri.vertices.rotate
  points := tri.points.rotate
  area := tri.area
  points_eq := by rw [tri.points_eq]; rfl
  area_eq := tri.area_eq.trans (signedArea_rotate _).symm
  area_pos := tri.area_pos

/-- The corners in turn: a triangle that has to be turned over moves on the other way round. -/
theorem ofVertices_rotate (v : Corners Vertex) :
    ofVertices v.rotate = (ofVertices v).map rotate ∨
      ofVertices v.rotate = (ofVertices v).map fun tri ↦ tri.rotate.rotate := by
  have harea : signedArea (v.rotate.map Vertex.point) = signedArea (v.map Vertex.point) := by
    rw [Corners.map_rotate, signedArea_rotate]
  rcases Int.lt_trichotomy (signedArea (v.map Vertex.point)) 0 with hneg | hzero | hpos
  · right
    rw [ofVertices_of_neg hneg, ofVertices_of_neg (show _ < 0 by omega)]
    exact congrArg some (ext_vertices rfl)
  · left
    rw [ofVertices_of_zero hzero, ofVertices_of_zero (harea.trans hzero)]
    rfl
  · left
    rw [ofVertices_of_pos hpos, ofVertices_of_pos (show 0 < _ by omega)]
    exact congrArg some (ext_vertices rfl)

end Oriented

end DisplayRaster
