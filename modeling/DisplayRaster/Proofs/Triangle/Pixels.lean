import DisplayRaster.Proofs.Draw.Fragments
import DisplayRaster.Proofs.Texture.Weights
import DisplayRaster.Proofs.Triangle.Orientation
import DisplayRaster.Proofs.Triangle.Watertight

/-!
# A triangle at one pixel

A triangle that covers a pixel has one fragment there and its draw visits it, because the region of
the draw contains every covered center (`filter_isAt_triangleFragments`).  The weights of the
corners at such a pixel are not negative and add up to the area, so whatever is interpolated stays
between the values at the corners (`Oriented.weightedSum_mem`).  A depth therefore needs no
clamping: it is the weighted mean, rounded down (`Oriented.toNat_depthAt`).
-/

set_option autoImplicit false

namespace DisplayRaster

namespace Oriented

variable {tri : Oriented} {x y : Int}

theorem weights_nonneg (h : tri.covers x y = true) : (tri.weights x y).All (0 ≤ ·) := by
  obtain ⟨ha, hb, hc⟩ := encloses_of_covers h
  exact ⟨ha, hb, hc⟩

/-- What is interpolated at a covered pixel lies between the values at the corners. -/
theorem weightedSum_mem (h : tri.covers x y = true) {values : Corners Int} {lo hi : Int}
    (hvalues : values.All fun v ↦ lo ≤ v ∧ v ≤ hi) :
    tri.area * lo ≤ TextureCoord.weightedSum (tri.weights x y) values ∧
      TextureCoord.weightedSum (tri.weights x y) values ≤ tri.area * hi := by
  rw [← tri.sum_weights x y]
  exact Corners.weightedSum_mem (weights_nonneg h) hvalues

/-- **The depth at a covered pixel** is the weighted mean of the depths at the corners, rounded
down. -/
theorem toNat_depthAt (h : tri.covers x y = true) :
    ((tri.depthAt (tri.weights x y)).toNat : Int) =
      TextureCoord.weightedSum (tri.weights x y) (tri.vertices.map fun v ↦ (v.z.toNat : Int)) /
        tri.area := by
  have hz (v : Vertex) : (0 : Int) ≤ v.z.toNat ∧ (v.z.toNat : Int) ≤ 65535 := by
    have hlt := v.z.toNat_lt
    omega
  have hall : (tri.vertices.map fun v ↦ (v.z.toNat : Int)).All fun z ↦ 0 ≤ z ∧ z ≤ 65535 :=
    Corners.All.map hz _
  obtain ⟨hlo, hhi⟩ := weightedSum_mem h hall
  rw [mul_zero] at hlo
  have hpos := tri.area_pos
  have hnonneg := Int.ediv_nonneg hlo hpos.le
  have hle := Int.ediv_le_ediv hpos hhi
  rw [Int.mul_ediv_cancel_left _ hpos.ne'] at hle
  rw [depthAt]
  simp only [UInt16.toNat_ofNat']
  omega

theorem fragment_of_covers {μ : Type} [Memory μ] (h : tri.covers x y = true) {st : RenderState}
    {paint : Paint} {projection : Projection} {tested : Bool} {m : μ} :
    tri.fragment st paint projection tested m x y =
      some {
        x, y
        color := paint.colorAt st m fun _ ↦
          TextureCoord.ofWeights projection (tri.weights x y) tri.vertices tri.area
        punchThrough := paint.punchThrough
        depth := if tested then some (tri.depthAt (tri.weights x y)) else none } :=
  if_pos h

theorem fragment_of_not_covers {μ : Type} [Memory μ] (h : ¬ tri.covers x y = true)
    {st : RenderState} {paint : Paint} {projection : Projection} {tested : Bool} {m : μ} :
    tri.fragment st paint projection tested m x y = none :=
  if_neg h

end Oriented

/-- A triangle has its one fragment on each pixel that it covers, and none anywhere else. -/
theorem filter_isAt_triangleFragments {fb : Framebuffer} {st : RenderState}
    {source? : Option TexelSource} {paint : Paint}
    (hchoose : Paint.choose st source? = some paint) {v : Corners Vertex} {tri : Oriented}
    (htri : Oriented.ofVertices v = some tri) (m : Rdram) (projection : Projection)
    (carriesDepth : Bool) {x y : Int} (hfb : fb.contains x y = true) :
    (triangleFragments fb st m v source? projection carriesDepth).filter (Fragment.isAt x y) =
      (tri.fragment st paint projection (carriesDepth && st.testsDepth) m x y).toList := by
  rw [triangleFragments, hchoose, htri]
  refine (filter_isAt_filterMap (Region.nodup_rowMajor _)
    (fun p f hf ↦ Oriented.fragment_eq_some hf) x y).trans ?_
  split
  · rfl
  · next hregion =>
    have hcovers : ¬ tri.covers x y = true := fun h ↦
      hregion (Region.mem_rowMajor.2 (Oriented.contains_region hfb h))
    rw [Oriented.fragment_of_not_covers hcovers]
    rfl

end DisplayRaster
