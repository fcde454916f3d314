import DisplayRaster.Proofs.Texture.Middle
import DisplayRaster.Proofs.Triangle.Pixels

/-!
# Rectangles in two triangles

A rectangle is cut along the diagonal from its upper right to its lower left corner, and its texture
coordinate grows by one texel with each pixel.  Both triangles see the middle of the same texel at
the center of a pixel (`Quad.Half.isMiddle_s`), and each pixel belongs to one of them: the diagonal
is a left edge of the lower triangle and no edge of that kind of the upper one, so a center on it
belongs to the lower one.
-/

set_option autoImplicit false

namespace DisplayRaster

/-! ## The corners -/

/-- A rectangle of pixels in the guard band, with the texture coordinate of its top left corner. -/
structure Quad where
  x0 : Int32
  y0 : Int32
  x1 : Int32
  y1 : Int32
  s0 : Int32
  t0 : Int32
  x_lt : x0.toInt < x1.toInt
  y_lt : y0.toInt < y1.toInt
  abs_x0_le : |x0.toInt| ≤ 2 ^ 24
  abs_y0_le : |y0.toInt| ≤ 2 ^ 24
  abs_x1_le : |x1.toInt| ≤ 2 ^ 24
  abs_y1_le : |y1.toInt| ≤ 2 ^ 24
  /-- The texture coordinates of the lower right corner are signed words. -/
  s1_lt : s0.toInt + (x1.toInt - x0.toInt) < 2 ^ 31
  t1_lt : t0.toInt + (y1.toInt - y0.toInt) < 2 ^ 31

namespace Quad

/-- The number of columns. -/
def width (q : Quad) : Int := q.x1.toInt - q.x0.toInt

/-- The number of rows. -/
def height (q : Quad) : Int := q.y1.toInt - q.y0.toInt

/-- Whether a pixel lies in the rectangle. -/
def Contains (q : Quad) (x y : Int) : Prop :=
  q.x0.toInt ≤ x ∧ x < q.x1.toInt ∧ q.y0.toInt ≤ y ∧ y < q.y1.toInt

instance (q : Quad) (x y : Int) : Decidable (q.Contains x y) :=
  inferInstanceAs (Decidable (_ ∧ _ ∧ _ ∧ _))

/-- The horizontal texture coordinate of the right corners. -/
def s1 (q : Quad) : Int32 := q.s0 + (q.x1 - q.x0)

/-- The vertical texture coordinate of the lower corners. -/
def t1 (q : Quad) : Int32 := q.t0 + (q.y1 - q.y0)

def topLeft (q : Quad) : Vertex := .textured q.x0 q.y0 q.s0 q.t0

def topRight (q : Quad) : Vertex := .textured q.x1 q.y0 q.s1 q.t0

def bottomRight (q : Quad) : Vertex := .textured q.x1 q.y1 q.s1 q.t1

def bottomLeft (q : Quad) : Vertex := .textured q.x0 q.y1 q.s0 q.t1

/-- The triangle above the diagonal. -/
def upper (q : Quad) : Corners Vertex := ⟨q.topLeft, q.topRight, q.bottomLeft⟩

/-- The triangle below the diagonal. -/
def lower (q : Quad) : Corners Vertex := ⟨q.topRight, q.bottomRight, q.bottomLeft⟩

variable (q : Quad)

theorem width_pos : 0 < q.width := Int.sub_pos_of_lt q.x_lt

theorem height_pos : 0 < q.height := Int.sub_pos_of_lt q.y_lt

theorem width_le : q.width ≤ 2 ^ 25 := by
  have h0 := abs_le.1 q.abs_x0_le
  have h1 := abs_le.1 q.abs_x1_le
  rw [width]
  omega

theorem height_le : q.height ≤ 2 ^ 25 := by
  have h0 := abs_le.1 q.abs_y0_le
  have h1 := abs_le.1 q.abs_y1_le
  rw [height]
  omega

/-- The difference of two signed words added to a third, where nothing wraps around. -/
theorem toInt_add_sub {a b c : Int32} (hle : b.toInt < c.toInt) (hdiff : c.toInt - b.toInt ≤ 2 ^ 25)
    (hlt : a.toInt + (c.toInt - b.toInt) < 2 ^ 31) :
    (a + (c - b)).toInt = a.toInt + (c.toInt - b.toInt) := by
  have ha := Int32.le_toInt a
  have hsub : (c - b).toInt = c.toInt - b.toInt := by
    rw [Int32.toInt_sub]
    exact Int.bmod_eq_of_le (by omega) (by omega)
  rw [Int32.toInt_add, hsub]
  exact Int.bmod_eq_of_le (by omega) (by omega)

theorem toInt_s1 : q.s1.toInt = q.s0.toInt + q.width :=
  toInt_add_sub q.x_lt q.width_le q.s1_lt

theorem toInt_t1 : q.t1.toInt = q.t0.toInt + q.height :=
  toInt_add_sub q.y_lt q.height_le q.t1_lt

/-! ## Areas -/

/-- The area of the rectangle left of the center of a pixel, doubled. -/
def across (x : Int) : Int := q.height * (2 * (x - q.x0.toInt) + 1)

/-- The area of the rectangle above the center of a pixel, doubled. -/
def down (y : Int) : Int := q.width * (2 * (y - q.y0.toInt) + 1)

/-- The edge value of the diagonal at the center of a pixel, positive above the diagonal. -/
def diagonal (x y : Int) : Int := 4 * (q.width * q.height) - 2 * q.across x - 2 * q.down y

theorem across_ne_zero (x : Int) : q.across x ≠ 0 :=
  mul_ne_zero q.height_pos.ne' (by omega)

theorem down_ne_zero (y : Int) : q.down y ≠ 0 :=
  mul_ne_zero q.width_pos.ne' (by omega)

/-- An odd multiple of `n` lies between zero and `2 * n * k` iff it is one of the first `k`. -/
theorem mul_odd_mem_iff {n k i : Int} (hn : 0 < n) :
    0 < n * (2 * i + 1) ∧ n * (2 * i + 1) < 2 * (n * k) ↔ 0 ≤ i ∧ i < k := by
  have hk : 2 * (n * k) = n * (2 * k) := by ring
  rw [hk, mul_pos_iff_of_pos_left hn, mul_lt_mul_iff_right₀ hn]
  omega

theorem contains_iff (x y : Int) :
    q.Contains x y ↔ (0 < q.across x ∧ q.across x < 2 * (q.width * q.height)) ∧
      0 < q.down y ∧ q.down y < 2 * (q.width * q.height) := by
  have hx := mul_odd_mem_iff (k := q.width) (i := x - q.x0.toInt) q.height_pos
  have hy := mul_odd_mem_iff (k := q.height) (i := y - q.y0.toInt) q.width_pos
  rw [mul_comm q.height q.width] at hx
  rw [across, down, hx, hy, Contains, width, height]
  omega

/-! ## The halves -/

theorem points_upper : q.upper.map Vertex.point =
    ⟨⟨q.x0.toInt * 2, q.y0.toInt * 2⟩, ⟨q.x1.toInt * 2, q.y0.toInt * 2⟩,
      ⟨q.x0.toInt * 2, q.y1.toInt * 2⟩⟩ := by
  simp only [Corners.map, Vertex.point, upper, topLeft, topRight, bottomLeft, Vertex.textured,
    halfPixels_of_abs_le q.abs_x0_le, halfPixels_of_abs_le q.abs_x1_le,
    halfPixels_of_abs_le q.abs_y0_le, halfPixels_of_abs_le q.abs_y1_le]

theorem points_lower : q.lower.map Vertex.point =
    ⟨⟨q.x1.toInt * 2, q.y0.toInt * 2⟩, ⟨q.x1.toInt * 2, q.y1.toInt * 2⟩,
      ⟨q.x0.toInt * 2, q.y1.toInt * 2⟩⟩ := by
  simp only [Corners.map, Vertex.point, lower, topRight, bottomRight, bottomLeft, Vertex.textured,
    halfPixels_of_abs_le q.abs_x0_le, halfPixels_of_abs_le q.abs_x1_le,
    halfPixels_of_abs_le q.abs_y0_le, halfPixels_of_abs_le q.abs_y1_le]

theorem weights_upper (x y : Int) :
    edgeValues (q.upper.map Vertex.point) (pixelCenter x y) =
      ⟨q.diagonal x y, 2 * q.across x, 2 * q.down y⟩ := by
  rw [points_upper]
  simp only [edgeValues, edge, pixelCenter, diagonal, across, down, width, height, Corners.mk.injEq]
  refine ⟨by ring, by ring, by ring⟩

theorem weights_lower (x y : Int) :
    edgeValues (q.lower.map Vertex.point) (pixelCenter x y) =
      ⟨4 * (q.width * q.height) - 2 * q.down y, -q.diagonal x y,
        4 * (q.width * q.height) - 2 * q.across x⟩ := by
  rw [points_lower]
  simp only [edgeValues, edge, pixelCenter, diagonal, across, down, width, height, Corners.mk.injEq]
  refine ⟨by ring, by ring, by ring⟩

/-- The upper triangle leaves out the centers on the diagonal. -/
theorem covers_upper (x y : Int) :
    coversValues (q.upper.map Vertex.point)
        (edgeValues (q.upper.map Vertex.point) (pixelCenter x y)) = true ↔
      q.Contains x y ∧ 0 < q.diagonal x y := by
  have hx := q.x_lt
  have hy := q.y_lt
  have hacross := q.across_ne_zero x
  have hdown := q.down_ne_zero y
  rw [weights_upper, points_upper, contains_iff]
  simp only [coversValues, Bool.and_eq_true, admits_eq_true, diagonal]
  omega

/-- The lower triangle has the centers on the diagonal. -/
theorem covers_lower (x y : Int) :
    coversValues (q.lower.map Vertex.point)
        (edgeValues (q.lower.map Vertex.point) (pixelCenter x y)) = true ↔
      q.Contains x y ∧ q.diagonal x y ≤ 0 := by
  have hx := q.x_lt
  have hy := q.y_lt
  rw [weights_lower, points_lower, contains_iff]
  simp only [coversValues, Bool.and_eq_true, admits_eq_true, diagonal]
  omega

/-- The triangle `tri` is the half of the rectangle on one side of the diagonal. -/
structure Half (tri : Oriented) (side : Int → Prop) : Prop where
  covers_iff : ∀ x y, tri.covers x y = true ↔ q.Contains x y ∧ side (q.diagonal x y)
  area_eq : tri.area = 4 * (q.width * q.height)
  /-- The horizontal texture coordinate at the center of a pixel, doubled. -/
  s_eq : ∀ x y, TextureCoord.weightedSum (tri.weights x y)
      (tri.vertices.map fun v ↦ v.s.toInt) * 2 =
    tri.area * (2 * (q.s0.toInt + (x - q.x0.toInt)) + 1)
  t_eq : ∀ x y, TextureCoord.weightedSum (tri.weights x y)
      (tri.vertices.map fun v ↦ v.t.toInt) * 2 =
    tri.area * (2 * (q.t0.toInt + (y - q.y0.toInt)) + 1)

theorem area_pos : 0 < 4 * (q.width * q.height) := by
  have hpos := Int.mul_pos q.width_pos q.height_pos
  omega

/-- Each half has half the area; a square pixel has four square half pixels. -/
theorem signedArea_upper : signedArea (q.upper.map Vertex.point) = 4 * (q.width * q.height) := by
  rw [points_upper]
  simp only [signedArea, edge, width, height]
  ring

theorem signedArea_lower : signedArea (q.lower.map Vertex.point) = 4 * (q.width * q.height) := by
  rw [points_lower]
  simp only [signedArea, edge, width, height]
  ring

/-- The weighted sum of a texture coordinate over the corners of the upper triangle. -/
theorem weightedSum_upper (x y : Int) (f : Vertex → Int) :
    TextureCoord.weightedSum (edgeValues (q.upper.map Vertex.point) (pixelCenter x y))
        (q.upper.map f) =
      q.diagonal x y * f q.topLeft + 2 * q.across x * f q.topRight +
        2 * q.down y * f q.bottomLeft := by
  rw [weights_upper]
  rfl

theorem weightedSum_lower (x y : Int) (f : Vertex → Int) :
    TextureCoord.weightedSum (edgeValues (q.lower.map Vertex.point) (pixelCenter x y))
        (q.lower.map f) =
      (4 * (q.width * q.height) - 2 * q.down y) * f q.topRight +
        -q.diagonal x y * f q.bottomRight +
        (4 * (q.width * q.height) - 2 * q.across x) * f q.bottomLeft := by
  rw [weights_lower]
  rfl

/-- The horizontal texture coordinate at the center of a pixel is the same in both halves. -/
theorem weightedSum_s {v : Corners Vertex} (hv : v = q.upper ∨ v = q.lower) (x y : Int) :
    TextureCoord.weightedSum (edgeValues (v.map Vertex.point) (pixelCenter x y))
        (v.map fun v ↦ v.s.toInt) * 2 =
      signedArea (v.map Vertex.point) * (2 * (q.s0.toInt + (x - q.x0.toInt)) + 1) := by
  rcases hv with rfl | rfl
  · rw [weightedSum_upper, signedArea_upper, diagonal, across, down]
    simp only [topLeft, topRight, bottomLeft, Vertex.textured, toInt_s1]
    ring
  · rw [weightedSum_lower, signedArea_lower, diagonal, across, down]
    simp only [topRight, bottomRight, bottomLeft, Vertex.textured, toInt_s1]
    ring

theorem weightedSum_t {v : Corners Vertex} (hv : v = q.upper ∨ v = q.lower) (x y : Int) :
    TextureCoord.weightedSum (edgeValues (v.map Vertex.point) (pixelCenter x y))
        (v.map fun v ↦ v.t.toInt) * 2 =
      signedArea (v.map Vertex.point) * (2 * (q.t0.toInt + (y - q.y0.toInt)) + 1) := by
  rcases hv with rfl | rfl
  · rw [weightedSum_upper, signedArea_upper, diagonal, across, down]
    simp only [topLeft, topRight, bottomLeft, Vertex.textured, toInt_t1]
    ring
  · rw [weightedSum_lower, signedArea_lower, diagonal, across, down]
    simp only [topRight, bottomRight, bottomLeft, Vertex.textured, toInt_t1]
    ring

theorem exists_upper : ∃ tri, Oriented.ofVertices q.upper = some tri ∧ q.Half tri (0 < ·) := by
  have hpos : 0 < signedArea (q.upper.map Vertex.point) := q.signedArea_upper ▸ q.area_pos
  exact ⟨_, Oriented.ofVertices_of_pos hpos, q.covers_upper, q.signedArea_upper,
    q.weightedSum_s (.inl rfl), q.weightedSum_t (.inl rfl)⟩

theorem exists_lower : ∃ tri, Oriented.ofVertices q.lower = some tri ∧ q.Half tri (· ≤ 0) := by
  have hpos : 0 < signedArea (q.lower.map Vertex.point) := q.signedArea_lower ▸ q.area_pos
  exact ⟨_, Oriented.ofVertices_of_pos hpos, q.covers_lower, q.signedArea_lower,
    q.weightedSum_s (.inr rfl), q.weightedSum_t (.inr rfl)⟩

namespace Half

variable {q : Quad} {tri : Oriented} {side : Int → Prop} (h : q.Half tri side) {x y : Int}
  (hxy : q.Contains x y)

include h

theorem area_le : tri.area ≤ 2 ^ 64 := by
  rw [h.area_eq]
  have hle : q.width * q.height ≤ 2 ^ 25 * 2 ^ 25 :=
    Int.mul_le_mul q.width_le q.height_le q.height_pos.le (by omega)
  omega

include hxy

/-- **The center of a pixel is the middle of its texel**, in each half. -/
theorem isMiddle_s : IsMiddle (TextureCoord.affine (tri.weights x y) tri.vertices tri.area).s
    tri.area (q.s0.toInt + (x - q.x0.toInt)) where
  den_pos := tri.area_pos
  den_le := h.area_le
  num_eq := h.s_eq x y
  word := by
    have hs := Int32.le_toInt q.s0
    have hs1 := q.s1_lt
    obtain ⟨hx, hx1, -⟩ := hxy
    omega

theorem isMiddle_t : IsMiddle (TextureCoord.affine (tri.weights x y) tri.vertices tri.area).t
    tri.area (q.t0.toInt + (y - q.y0.toInt)) where
  den_pos := tri.area_pos
  den_le := h.area_le
  num_eq := h.t_eq x y
  word := by
    have ht := Int32.le_toInt q.t0
    have ht1 := q.t1_lt
    obtain ⟨-, -, hy, hy1⟩ := hxy
    omega

end Half

end Quad

end DisplayRaster
