import DisplayRaster.Proofs.DisplayList.WellFormed
import DisplayRaster.Proofs.Texture.Perspective
import DisplayRaster.Proofs.Triangle.Range

/-!
# Exact perspective for sixteen-bit coordinates

Display lists in memory give positions and texture coordinates as signed halfwords.  Edge values of
such triangles have at most 35 bits, so there is room for the scaled reciprocals of any perspective
weights: the first attempt at a coordinate never fails, and half a texel can be taken off for
bilinear filtering.  What these triangles show under perspective is therefore exact
(`perspective_exact`).
-/

set_option autoImplicit false

namespace DisplayRaster

open TextureCoord (AllFit)
open DisplayList

/-! ## Small triangles -/

/-- Edge values of points near the origin. -/
theorem abs_edge_le {bound : Int} {a b p : Point} (ha : |a.x| ≤ bound ∧ |a.y| ≤ bound)
    (hb : |b.x| ≤ bound ∧ |b.y| ≤ bound) (hp : |p.x| ≤ bound ∧ |p.y| ≤ bound) :
    |edge a b p| ≤ 8 * (bound * bound) := by
  have hsub {c d : Int} (hc : |c| ≤ bound) (hd : |d| ≤ bound) : |d - c| ≤ 2 * bound :=
    (abs_sub d c).trans (by omega)
  have hmul {c d : Int} (hc : |c| ≤ 2 * bound) (hd : |d| ≤ 2 * bound) :
      |c * d| ≤ 4 * (bound * bound) := by
    have hbound : 0 ≤ 2 * bound := (abs_nonneg c).trans hc
    rw [abs_mul]
    calc |c| * |d| ≤ 2 * bound * (2 * bound) := by gcongr
      _ = 4 * (bound * bound) := by ring
  have hx := hmul (hsub ha.1 hb.1) (hsub ha.2 hp.2)
  have hy := hmul (hsub ha.2 hb.2) (hsub ha.1 hp.1)
  have hedge := abs_sub ((b.x - a.x) * (p.y - a.y)) ((b.y - a.y) * (p.x - a.x))
  rw [edge]
  omega

theorem abs_halfPixels_le {coord : Int32} (h : IsHalf coord) : |halfPixels coord| ≤ 2 ^ 16 := by
  obtain ⟨hlo, hhi⟩ := h
  rw [abs_le, halfPixels, guardBand]
  omega

namespace Oriented

variable {tri : Oriented} (hhalf : tri.vertices.All Vertex.IsHalf)

include hhalf

/-- The area of a triangle with sixteen-bit coordinates. -/
theorem area_le_of_isHalf : tri.area ≤ 2 ^ 35 := by
  have hpoint {v : Vertex} (h : v.IsHalf) : |v.point.x| ≤ 2 ^ 16 ∧ |v.point.y| ≤ 2 ^ 16 :=
    ⟨abs_halfPixels_le h.x, abs_halfPixels_le h.y⟩
  have hle := abs_edge_le (hpoint hhalf.a) (hpoint hhalf.b) (hpoint hhalf.c)
  rw [tri.area_eq, tri.points_eq]
  exact (le_abs_self _).trans (hle.trans (by omega))

theorem sum_weights_le_of_isHalf (x y : Int) : (tri.weights x y).sum ≤ 2 ^ 35 :=
  (tri.sum_weights x y).trans_le (area_le_of_isHalf hhalf)

theorem abs_toInt_le_of_isHalf {f : Vertex → Int32} (hf : ∀ {v : Vertex}, v.IsHalf → IsHalf (f v)) :
    (tri.vertices.map fun v ↦ (f v).toInt).All fun n ↦ |n| ≤ 2 ^ 15 := by
  have hcorner {v : Vertex} (h : v.IsHalf) : |(f v).toInt| ≤ 2 ^ 15 := by
    obtain ⟨hlo, hhi⟩ := hf h
    rw [abs_le]
    omega
  exact ⟨hcorner hhalf.a, hcorner hhalf.b, hcorner hhalf.c⟩

end Oriented

/-! ## Exact coordinates -/

/-- Perspective is exact for a triangle at a pixel: its coordinate is the mean of the corners, from
the first attempt, and nothing leaves its word on the way to a color. -/
structure Oriented.ExactAt (tri : Oriented) (x y : Int) : Prop where
  mean : TextureCoord.IsPerspectiveMean (tri.weights x y) tri.vertices (tri.coordAt .perspective x y)
  origin : tri.vertices.map Vertex.q = ⟨0, 0, 0⟩ → tri.coordAt .perspective x y = .origin
  /-- The perspective weights are never cut. -/
  first : ∀ q, TextureCoord.reduced (tri.vertices.map fun v ↦ v.q.toNat) = some q →
    TextureCoord.weighted (tri.weights x y) tri.vertices (TextureCoord.reciprocals q) =
      some (tri.coordAt .perspective x y)
  steps : ∀ filter, AllFit ((tri.coordAt .perspective x y).sampleSteps filter)
  /-- Words that wrap around sample the exact texel. -/
  sample_eq : ∀ {μ : Type} [Memory μ] (st : RenderState) (m : μ) (source : TexelSource),
    sample st m source (tri.coordAt .perspective x y) =
      sampleExact st m source (tri.coordAt .perspective x y)

section

variable {tri : Oriented} (hhalf : tri.vertices.All Vertex.IsHalf) {x y : Int}
  (hcovers : tri.covers x y = true)

include hhalf hcovers

/-- The first attempt succeeds, and what comes out of it is small. -/
theorem Oriented.first_attempt {q : Corners Nat}
    (hq : TextureCoord.reduced (tri.vertices.map fun v ↦ v.q.toNat) = some q) :
    TextureCoord.weighted (tri.weights x y) tri.vertices (TextureCoord.reciprocals q) =
        some (tri.coordAt .perspective x y) ∧
      |(tri.coordAt .perspective x y).s| ≤ 2 ^ 116 ∧
        |(tri.coordAt .perspective x y).t| ≤ 2 ^ 116 := by
  have hw := Oriented.weights_nonneg hcovers
  have hsum := Oriented.sum_weights_le_of_isHalf hhalf x y
  have hr := TextureCoord.reciprocals_reduced_mem hq
  have hs := Oriented.abs_toInt_le_of_isHalf hhalf (f := Vertex.s) Vertex.IsHalf.s
  have ht := Oriented.abs_toInt_le_of_isHalf hhalf (f := Vertex.t) Vertex.IsHalf.t
  obtain ⟨coord, hcoord, hsLe, htLe⟩ :=
    TextureCoord.exists_weighted hw hr hs ht (by omega) (by omega)
  have heq : tri.coordAt .perspective x y = coord := TextureCoord.perspective_of_first hq hcoord
  rw [heq]
  exact ⟨hcoord, hsLe.trans (by omega), htLe.trans (by omega)⟩

theorem Oriented.exactAt : tri.ExactAt x y := by
  have hbounded := bounded_coordAt hcovers .perspective
  have hsmall : |(tri.coordAt .perspective x y).s| ≤ 2 ^ 116 ∧
      |(tri.coordAt .perspective x y).t| ≤ 2 ^ 116 := by
    cases hq : TextureCoord.reduced (tri.vertices.map fun v ↦ v.q.toNat) with
    | none =>
      have horigin : tri.coordAt .perspective x y = .origin := TextureCoord.perspective_of_none hq
      rw [horigin]
      exact ⟨by decide, by decide⟩
    | some q => exact (Oriented.first_attempt hhalf hcovers hq).2
  have hsteps (filter : TextureFilter) :
      AllFit ((tri.coordAt .perspective x y).sampleSteps filter) := by
    cases filter with
    | nearest => exact hbounded.nearestSteps_fit
    | bilinear =>
      exact hbounded.bilinearSteps_fit.2
        ⟨TextureCoord.doubles_of_abs_le hbounded.den_pos hbounded.den_le hsmall.1,
          TextureCoord.doubles_of_abs_le hbounded.den_pos hbounded.den_le hsmall.2⟩
  refine ⟨?_, fun hzero ↦ ?_, fun q hq ↦ (Oriented.first_attempt hhalf hcovers hq).1, hsteps,
    fun st m source ↦ sample_eq_exact st m source hbounded (hsteps st.filter)⟩
  · exact TextureCoord.isPerspectiveMean_of_first (Oriented.weights_nonneg hcovers)
      fun q hq ↦ (Oriented.first_attempt hhalf hcovers hq).1
  · have hnone : TextureCoord.reduced (tri.vertices.map fun v ↦ v.q.toNat) = none := by
      have hmap : (tri.vertices.map fun v ↦ v.q.toNat) = ⟨0, 0, 0⟩ :=
        congrArg (Corners.map UInt32.toNat) hzero
      rw [hmap]
      rfl
    exact TextureCoord.perspective_of_none hnone

end

/-! ## Display lists -/

/-- The corners of the triangle that a command draws, if it draws one. -/
def Command.triangle? : Command → Option (Corners Vertex)
  | .solidTriangle v | .solidTriangleDepth v | .texTriangle _ _ _ v | .texTriangleDepth _ _ v =>
    some v
  | _ => none

theorem Command.InRange.isHalf {c : Command} (h : c.InRange) {v : Corners Vertex}
    (hv : c.triangle? = some v) : v.All Vertex.IsHalf := by
  cases c with
  | solidTriangle | solidTriangleDepth =>
    cases hv
    exact h
  | texTriangle =>
    cases hv
    exact h.2.2.2
  | texTriangleDepth =>
    cases hv
    exact h.2
  | _ => cases hv

/-- **Perspective is exact for sixteen-bit coordinates**, with any perspective weights and at every
pixel that a triangle covers, and every triangle of a display list in memory has such
coordinates. -/
theorem perspective_exact :
    (∀ {v : Corners Vertex} {tri : Oriented} {x y : Int}, v.All Vertex.IsHalf →
      Oriented.ofVertices v = some tri → tri.covers x y = true → tri.ExactAt x y) ∧
    ∀ {μ : Type} [Memory μ] (m : μ) (start : UInt32) (budget : Nat),
      ∀ c ∈ Bytecode.translate m start budget, ∀ v, c.triangle? = some v →
        v.All Vertex.IsHalf := by
  constructor
  · intro v tri x y hv htri hcovers
    refine Oriented.exactAt ?_ hcovers
    rcases Oriented.vertices_eq_or_flip htri with h | h
    · rw [h]
      exact hv
    · rw [h]
      exact ⟨hv.a, hv.c, hv.b⟩
  · intro μ _ m start budget c hc v hv
    exact ((Bytecode.wellFormed_translate m start budget).inRange c hc).isHalf hv

/-- A display list with the largest coordinates, and with perspective weights that have no common
factor. -/
theorem perspective_exact_wide :
    let v : Corners Vertex :=
      ⟨⟨-32768, -32768, 32767, -32768, 4294967295, 0⟩,
        ⟨32767, -32768, -32768, 32767, 4294967293, 0⟩, ⟨0, 32767, 32767, 32767, 0, 0⟩⟩
    let list : List Instruction :=
      [.setTextureImage .rgba16 4 96, .setTileSize ⟨0, 0, 12, 12⟩, .vertices .texWeightDepth 3 48,
        .triangle .texWeightDepth 0 1 2, .endList]
    let m : Rdram :=
      (Instruction.write ((Rdram.zeroed 128).load 48
        (VertexLayout.texWeightDepth.records v.toList)).memory 0 list).memory
    ∃ tri, .texTriangleDepth .perspective ⟨96, 4, 4, 4⟩ v ∈ Bytecode.translate m 0 8 ∧
      Oriented.ofVertices v = some tri ∧ tri.covers 0 0 = true ∧ tri.ExactAt 0 0 ∧
      TextureCoord.perspectiveSum (tri.weights 0 0) tri.vertices (fun _ ↦ 1) ≠ 0 := by
  intro v list m
  let tri : Oriented :=
    ⟨v, v.map Vertex.point, signedArea (v.map Vertex.point), rfl, rfl, by decide⟩
  have htri : Oriented.ofVertices v = some tri := Oriented.ofVertices_of_pos tri.area_pos
  have hcovers : tri.covers 0 0 = true := by decide
  have hdrawn : .texTriangleDepth .perspective ⟨96, 4, 4, 4⟩ v ∈ Bytecode.translate m 0 8 := by
    decide +kernel
  have hv : v.All Vertex.IsHalf := perspective_exact.2 m 0 8 _ hdrawn v rfl
  refine ⟨tri, hdrawn, htri, hcovers, perspective_exact.1 hv htri hcovers, ?_⟩
  rw [TextureCoord.perspectiveSum_eq]
  decide +kernel

end DisplayRaster
