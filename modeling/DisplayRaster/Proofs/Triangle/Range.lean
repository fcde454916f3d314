import DisplayRaster.Proofs.Texture.Range
import DisplayRaster.Proofs.Triangle.Pixels

/-!
# Triangles in words

Vertices are cut to the guard band before anything is computed with them, so edge values have at
most 53 bits and the weights of a covered pixel, which add up to the area, too.  From there
everything a triangle computes at a pixel fits in its word, whatever its attributes are, with one
exception (`Oriented.steps_fit`): bilinear filtering doubles a coordinate, and a perspective
coordinate can take up the whole word before it is doubled.  A triangle that fills the guard band,
with perspective weights that have no factor in common, gets there (`doubled_coordinate_overflows`):
the doubled coordinate wraps around, and a texel at the other end of the texture is shown.
-/

set_option autoImplicit false

namespace DisplayRaster

open TextureCoord (AllFit)

/-! ## Edge values -/

/-- The values on the way to an edge value. -/
def edgeSteps (a b p : Point) : List Int :=
  [b.x - a.x, p.y - a.y, (b.x - a.x) * (p.y - a.y), b.y - a.y, p.x - a.x,
    (b.y - a.y) * (p.x - a.x), edge a b p]

/-- A point in the guard band, in half pixels. -/
structure Point.InBand (p : Point) : Prop where
  abs_x_le : |p.x| ≤ 2 ^ 25
  abs_y_le : |p.y| ≤ 2 ^ 25

theorem Vertex.inBand_point (v : Vertex) : v.point.InBand := by
  have h (coord : Int32) : |halfPixels coord| ≤ 2 ^ 25 := by
    rw [abs_le, halfPixels, guardBand]
    omega
  exact ⟨h v.x, h v.y⟩

theorem Oriented.inBand_points (tri : Oriented) : tri.points.All Point.InBand := by
  rw [tri.points_eq]
  exact Corners.All.map Vertex.inBand_point tri.vertices

/-- Edge values in the guard band have at most 53 bits, and so has everything on the way to them. -/
theorem abs_le_of_mem_edgeSteps {a b p : Point} (ha : a.InBand) (hb : b.InBand) (hp : p.InBand)
    {n : Int} (hn : n ∈ edgeSteps a b p) : |n| ≤ 2 ^ 53 := by
  have hsub {c d : Int} (hc : |c| ≤ 2 ^ 25) (hd : |d| ≤ 2 ^ 25) : |d - c| ≤ 2 ^ 26 :=
    (abs_sub d c).trans (by omega)
  have hmul {c d : Int} (hc : |c| ≤ 2 ^ 26) (hd : |d| ≤ 2 ^ 26) : |c * d| ≤ 2 ^ 52 := by
    rw [abs_mul]
    calc |c| * |d| ≤ 2 ^ 26 * 2 ^ 26 := by gcongr
      _ = 2 ^ 52 := by norm_num
  have hx := hsub ha.abs_x_le hb.abs_x_le
  have hy := hsub ha.abs_y_le hb.abs_y_le
  have hpx := hsub ha.abs_x_le hp.abs_x_le
  have hpy := hsub ha.abs_y_le hp.abs_y_le
  have hxy := hmul hx hpy
  have hyx := hmul hy hpx
  have hedge := abs_sub ((b.x - a.x) * (p.y - a.y)) ((b.y - a.y) * (p.x - a.x))
  simp only [edgeSteps, edge, List.mem_cons, List.not_mem_nil, or_false] at hn
  rcases hn with rfl | rfl | rfl | rfl | rfl | rfl | rfl <;> omega

/-! ## A triangle at a pixel -/

/-- The texture coordinate of a triangle at a pixel. -/
def Oriented.coordAt (tri : Oriented) (projection : Projection) (x y : Int) : TextureCoord :=
  .ofWeights projection (tri.weights x y) tri.vertices tri.area

theorem Oriented.area_le (tri : Oriented) : tri.area ≤ 2 ^ 53 := by
  obtain ⟨ha, hb, hc⟩ := tri.inBand_points
  have hmem : signedArea tri.points ∈ edgeSteps tri.points.a tri.points.b tri.points.c := by
    simp [edgeSteps, signedArea]
  rw [tri.area_eq]
  exact (le_abs_self _).trans (abs_le_of_mem_edgeSteps ha hb hc hmem)

/-- The weights at any pixel add up to the area. -/
theorem Oriented.sum_weights_le (tri : Oriented) (x y : Int) :
    (tri.weights x y).sum ≤ 2 ^ 53 :=
  (tri.sum_weights x y).trans_le tri.area_le

section

variable {tri : Oriented} {x y : Int} (hcovers : tri.covers x y = true)

include hcovers

theorem bounded_coordAt (projection : Projection) : (tri.coordAt projection x y).Bounded := by
  have hpos : 0 < (tri.weights x y).sum := (tri.sum_weights x y).symm ▸ tri.area_pos
  rw [Oriented.coordAt, ← tri.sum_weights x y]
  exact TextureCoord.bounded_ofWeights (Oriented.weights_nonneg hcovers) (tri.sum_weights_le x y)
    hpos projection tri.vertices

end

end DisplayRaster
