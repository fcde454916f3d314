import DisplayRaster.Command
import DisplayRaster.Proofs.Draw.Untextured
import DisplayRaster.Proofs.Texture.Perspective
import DisplayRaster.Proofs.Triangle.Range

/-!
# Triangles that draw the same

What a triangle draws depends on a few things that are computed from its corners: the pixels it
visits, those it covers, and at these the depth and the texture coordinate.  Two triangles that
agree in them (`Oriented.DrawsLike`) leave the same memory, whatever is in it and wherever the
texture and the depth buffer lie, because their fragments are the same in the same order.

* The order of the corners does not matter to draws without perspective (`drawTriangle_reordered`):
  everything is a sum over the corners.
* Perspective weights matter by their ratios only, and if they are equal the draw is the affine one
  (`draw_projective`).
-/

set_option autoImplicit false

namespace DisplayRaster

namespace Oriented

/-! ## Agreement -/

/-- What two triangles draw is the same, each under its own projection. -/
structure DrawsLike (tri tri' : Oriented) (projection projection' : Projection) : Prop where
  region_eq : ∀ fb, tri.region fb = tri'.region fb
  covers_eq : ∀ x y, tri.covers x y = tri'.covers x y
  depth_eq : ∀ {x y}, tri.covers x y = true →
    tri.depthAt (tri.weights x y) = tri'.depthAt (tri'.weights x y)
  coord_eq : ∀ {x y}, tri.covers x y = true →
    tri.coordAt projection x y = tri'.coordAt projection' x y

theorem DrawsLike.trans {tri tri' tri'' : Oriented}
    {projection projection' projection'' : Projection}
    (h : tri.DrawsLike tri' projection projection')
    (h' : tri'.DrawsLike tri'' projection' projection'') :
    tri.DrawsLike tri'' projection projection'' :=
  ⟨fun fb ↦ (h.region_eq fb).trans (h'.region_eq fb),
    fun x y ↦ (h.covers_eq x y).trans (h'.covers_eq x y),
    fun hcovers ↦ (h.depth_eq hcovers).trans (h'.depth_eq (h.covers_eq _ _ ▸ hcovers)),
    fun hcovers ↦ (h.coord_eq hcovers).trans (h'.coord_eq (h.covers_eq _ _ ▸ hcovers))⟩

variable {μ : Type} [Memory μ]

theorem DrawsLike.fragment_eq {tri tri' : Oriented} {projection projection' : Projection}
    (h : tri.DrawsLike tri' projection projection') (st : RenderState) (paint : Paint)
    (tested : Bool) (m : μ) (x y : Int) :
    tri.fragment st paint projection tested m x y =
      tri'.fragment st paint projection' tested m x y := by
  have hsame := h.covers_eq x y
  by_cases hcovers : tri.covers x y = true
  · rw [fragment_of_covers hcovers, fragment_of_covers (hsame ▸ hcovers), h.depth_eq hcovers]
    have hcoord := h.coord_eq hcovers
    rw [coordAt, coordAt] at hcoord
    rw [hcoord]
  · rw [fragment_of_not_covers hcovers, fragment_of_not_covers (hsame ▸ hcovers)]

end Oriented

section

variable {μ : Type} [Memory μ] {fb : Framebuffer} {st : RenderState} {m : μ}
  {source? : Option TexelSource} {carriesDepth : Bool}

/-- **Triangles that agree leave the same memory.** -/
theorem drawTriangle_eq_of_drawsLike {v v' : Corners Vertex} {tri tri' : Oriented}
    {projection projection' : Projection} (hv : Oriented.ofVertices v = some tri)
    (hv' : Oriented.ofVertices v' = some tri') (h : tri.DrawsLike tri' projection projection') :
    drawTriangle fb st m v source? projection carriesDepth =
      drawTriangle fb st m v' source? projection' carriesDepth := by
  rw [drawTriangle, drawTriangle, hv, hv']
  cases Paint.choose st source? with
  | none => rfl
  | some paint => simp only [h.fragment_eq, h.region_eq]

/-- A triangle without area draws nothing. -/
theorem drawTriangle_of_none {v : Corners Vertex} {projection : Projection}
    (hv : Oriented.ofVertices v = none) :
    drawTriangle fb st m v source? projection carriesDepth = m := by
  rw [drawTriangle, hv]
  cases Paint.choose st source? <;> rfl

/-! ## The order of the corners -/

theorem weightedSum_rotate (w values : Corners Int) :
    TextureCoord.weightedSum w.rotate values.rotate = TextureCoord.weightedSum w values := by
  simp only [TextureCoord.weightedSum, Corners.zipWith, Corners.rotate, Corners.sum]
  ring

theorem Oriented.covers_rotate (tri : Oriented) (x y : Int) :
    tri.rotate.covers x y = tri.covers x y :=
  (Bool.and_comm _ _).trans (Bool.and_assoc _ _ _).symm

theorem Oriented.weightedSum_weights_rotate (tri : Oriented) (x y : Int) (f : Vertex → Int) :
    TextureCoord.weightedSum (tri.rotate.weights x y) (tri.rotate.vertices.map f) =
      TextureCoord.weightedSum (tri.weights x y) (tri.vertices.map f) :=
  weightedSum_rotate (tri.weights x y) (tri.vertices.map f)

/-- A triangle whose corners are moved on draws the same, if it has the same texture coordinates. -/
theorem Oriented.drawsLike_rotate_of_coord {tri : Oriented} {projection : Projection}
    (hcoord : ∀ {x y}, tri.covers x y = true →
      tri.rotate.coordAt projection x y = tri.coordAt projection x y) :
    tri.rotate.DrawsLike tri projection projection := by
  have hleast (v : Corners Int) : v.rotate.least = v.least := by
    simp only [Corners.least, Corners.rotate]
    omega
  have hgreatest (v : Corners Int) : v.rotate.greatest = v.greatest := by
    simp only [Corners.greatest, Corners.rotate]
    omega
  refine ⟨?_, tri.covers_rotate, ?_, fun hcovers ↦ hcoord (tri.covers_rotate _ _ ▸ hcovers)⟩
  · intro fb
    have hx : (tri.rotate.points.map Point.x) = (tri.points.map Point.x).rotate := rfl
    have hy : (tri.rotate.points.map Point.y) = (tri.points.map Point.y).rotate := rfl
    simp only [region, hx, hy, hleast, hgreatest]
  · intro x y _
    rw [depthAt, depthAt, weightedSum_weights_rotate]
    rfl

theorem Oriented.drawsLike_rotate (tri : Oriented) : tri.rotate.DrawsLike tri .affine .affine := by
  refine drawsLike_rotate_of_coord fun {x y} _ ↦ ?_
  rw [coordAt, coordAt, TextureCoord.ofWeights, TextureCoord.ofWeights, TextureCoord.affine,
    TextureCoord.affine, weightedSum_weights_rotate, weightedSum_weights_rotate]
  rfl

theorem drawTriangle_flip (v : Corners Vertex) (projection : Projection) :
    drawTriangle fb st m v.flip source? projection carriesDepth =
      drawTriangle fb st m v source? projection carriesDepth := by
  rw [drawTriangle, drawTriangle, Oriented.ofVertices_flip]

/-- A draw that starts with the next corner is the same, if its triangle can be moved on. -/
theorem drawTriangle_rotate_of_drawsLike {v : Corners Vertex} {projection : Projection}
    (h : ∀ tri, Oriented.ofVertices v = some tri →
      tri.rotate.DrawsLike tri projection projection ∧
        tri.rotate.rotate.DrawsLike tri.rotate projection projection) :
    drawTriangle fb st m v.rotate source? projection carriesDepth =
      drawTriangle fb st m v source? projection carriesDepth := by
  cases hv : Oriented.ofVertices v with
  | none =>
    have hrotate : Oriented.ofVertices v.rotate = none := by
      rcases Oriented.ofVertices_rotate v with h | h <;> rw [h, hv] <;> rfl
    rw [drawTriangle_of_none hv, drawTriangle_of_none hrotate]
  | some tri =>
    obtain ⟨honce, htwice⟩ := h tri hv
    rcases Oriented.ofVertices_rotate v with h | h
    · rw [hv] at h
      exact drawTriangle_eq_of_drawsLike h hv honce
    · rw [hv] at h
      exact drawTriangle_eq_of_drawsLike h hv (htwice.trans honce)

theorem drawTriangle_rotate (v : Corners Vertex) :
    drawTriangle fb st m v.rotate source? .affine carriesDepth =
      drawTriangle fb st m v source? .affine carriesDepth :=
  drawTriangle_rotate_of_drawsLike fun tri _ ↦ ⟨tri.drawsLike_rotate, tri.rotate.drawsLike_rotate⟩

/-- A draw without a texture has no texture coordinates to project. -/
theorem drawTriangle_untextured (v : Corners Vertex) (projection : Projection) :
    drawTriangle fb st m v none projection carriesDepth =
      drawTriangle fb st m v none .affine carriesDepth := by
  obtain ⟨color, hpaint⟩ : ∃ color, Paint.choose st none = some (.flat color) := by
    rw [Paint.choose]
    split
    · exact ⟨_, rfl⟩
    · exact ⟨_, rfl⟩
    · exact ⟨_, rfl⟩
  rw [drawTriangle, drawTriangle, hpaint]
  cases Oriented.ofVertices v with
  | none => rfl
  | some tri => simp only [Oriented.fragment, Paint.colorAt]

end

/-- **The order of the corners does not matter** to a draw without texture or perspective.  It
leaves the same memory for each of the six orders, also where texture, depth buffer and framebuffer
share memory. -/
theorem drawTriangle_reordered {μ : Type} [Memory μ] (fb : Framebuffer) (st : RenderState) (m : μ)
    {v w : Corners Vertex} (horder : w.toList.Perm v.toList) {source? : Option TexelSource}
    {projection : Projection} (hplain : source? = none ∨ projection = .affine)
    (carriesDepth : Bool) :
    drawTriangle fb st m w source? projection carriesDepth =
      drawTriangle fb st m v source? projection carriesDepth := by
  have haffine : drawTriangle fb st m w source? .affine carriesDepth =
      drawTriangle fb st m v source? .affine carriesDepth :=
    Corners.eq_of_perm (f := fun v ↦ drawTriangle fb st m v source? .affine carriesDepth)
      (fun v ↦ drawTriangle_flip v .affine) drawTriangle_rotate horder
  rcases hplain with rfl | rfl
  · rw [drawTriangle_untextured w, drawTriangle_untextured v, haffine]
  · exact haffine

/-- An odd order and an even one of a triangle whose texture lies in the framebuffer. -/
theorem drawTriangle_reordered_overlap :
    let a : Vertex := ⟨0, 0, 5, -3, 1, 7⟩
    let b : Vertex := ⟨9, 1, 0, 8, 2, 9⟩
    let c : Vertex := ⟨2, 8, -6, 2, 3, 1⟩
    let fb : Framebuffer := ⟨0, 8, 8, 8⟩
    let st : RenderState :=
      { RenderState.initial 8 8 with
        filter := .bilinear, blend := .average, depthEnabled := true, depth := ⟨16, 4, 4⟩ }
    let source? : Option TexelSource := some ⟨.ia8, ⟨3, 4, 4, 5⟩⟩
    ∀ m : Rdram,
      drawTriangle fb st m ⟨b, a, c⟩ source? .affine true =
          drawTriangle fb st m ⟨a, b, c⟩ source? .affine true ∧
        drawTriangle fb st m ⟨b, c, a⟩ source? .affine true =
          drawTriangle fb st m ⟨a, b, c⟩ source? .affine true ∧
        drawTriangle fb st m ⟨c, b, a⟩ none .perspective false =
          drawTriangle fb st m ⟨a, b, c⟩ none .perspective false := by
  intro a b c fb st source? m
  exact ⟨drawTriangle_reordered fb st m (by decide) (.inr rfl) true,
    drawTriangle_reordered fb st m (by decide) (.inr rfl) true,
    drawTriangle_reordered fb st m (by decide) (.inl rfl) false⟩

/-! ## Perspective weights -/

/-- Triangles on the same points that agree in depths and coordinates draw the same. -/
theorem Oriented.drawsLike_of_points {tri tri' : Oriented} (hpoints : tri.points = tri'.points)
    (hz : tri.vertices.map Vertex.z = tri'.vertices.map Vertex.z)
    {projection projection' : Projection}
    (hcoord : ∀ {x y}, tri.covers x y = true →
      tri.coordAt projection x y = tri'.coordAt projection' x y) :
    tri.DrawsLike tri' projection projection' := by
  have harea : tri.area = tri'.area := by rw [tri.area_eq, tri'.area_eq, hpoints]
  have hweights (x y : Int) : tri.weights x y = tri'.weights x y := by
    rw [weights, weights, hpoints]
  refine ⟨?_, ?_, ?_, hcoord⟩
  · intro fb
    rw [region, region, hpoints]
  · intro x y
    rw [covers, covers, hweights, hpoints]
  · intro x y _
    rw [hweights]
    exact depthAt_congr harea hz _

section

variable {μ : Type} [Memory μ] {fb : Framebuffer} {st : RenderState} {m : μ}
  {source? : Option TexelSource} {carriesDepth : Bool}

/-- A triangle draws the same when its perspective weights are multiplied by one number. -/
theorem drawTriangle_scaled {k : ℚ} (hk : 0 < k) {v v' : Corners Vertex} (h : v.Scaled k v') :
    drawTriangle fb st m v' source? .perspective carriesDepth =
      drawTriangle fb st m v source? .perspective carriesDepth := by
  rcases Oriented.ofVertices_congr (h.map_eq Vertex.point fun _ _ ↦ rfl) with
    ⟨hv', hv⟩ | ⟨tri', tri, hv', hv, hpoints, -, hvertices⟩
  · rw [drawTriangle_of_none hv, drawTriangle_of_none hv']
  · have hscaled : tri.vertices.Scaled k tri'.vertices := by
      rcases hvertices with ⟨hv', hv⟩ | ⟨hv', hv⟩
      · rw [hv, hv']
        exact h
      · rw [hv, hv']
        exact h.flip
    refine drawTriangle_eq_of_drawsLike hv' hv
      (Oriented.drawsLike_of_points hpoints (hscaled.map_eq Vertex.z fun _ _ ↦ rfl) ?_)
    intro x y _
    rw [Oriented.coordAt, Oriented.coordAt, Oriented.weights, Oriented.weights, hpoints]
    exact TextureCoord.perspective_scaled hk hscaled _

/-- With the same perspective weight at all corners a triangle draws as without perspective. -/
theorem drawTriangle_uniform {v : Corners Vertex} {q : UInt32} (hq : v.map Vertex.q = ⟨q, q, q⟩)
    (hne : q ≠ 0) :
    drawTriangle fb st m v source? .perspective carriesDepth =
      drawTriangle fb st m v source? .affine carriesDepth := by
  cases hv : Oriented.ofVertices v with
  | none => rw [drawTriangle_of_none hv, drawTriangle_of_none hv]
  | some tri =>
    have huniform : tri.vertices.map Vertex.q = ⟨q, q, q⟩ := by
      rcases Oriented.vertices_eq_or_flip hv with h | h
      · rw [h, hq]
      · rw [h, Corners.map_flip, hq]
        rfl
    refine drawTriangle_eq_of_drawsLike hv hv (Oriented.drawsLike_of_points rfl rfl ?_)
    intro x y hcovers
    have hpos : 0 < (tri.weights x y).sum := (tri.sum_weights x y).symm ▸ tri.area_pos
    rw [Oriented.coordAt, Oriented.coordAt, ← tri.sum_weights x y]
    exact TextureCoord.perspective_of_uniform (Oriented.weights_nonneg hcovers)
      (tri.sum_weights_le x y) hpos huniform hne

end

/-- **Perspective weights are projective.**  Multiplied by a common positive number, they leave the
same memory, and if they are equal and not zero, the memory that the draw without perspective
leaves.  This holds for all formats, with and without depth, and for both attempts at a
coordinate. -/
theorem draw_projective {μ : Type} [Memory μ] (fb : Framebuffer) (st : RenderState) (m : μ)
    (texture : Texture) :
    (∀ {k : ℚ} {v v' : Corners Vertex}, 0 < k → v.Scaled k v' →
      (∀ format, Command.draw fb (.texTriangle format .perspective texture v') st m =
        Command.draw fb (.texTriangle format .perspective texture v) st m) ∧
      Command.draw fb (.texTriangleDepth .perspective texture v') st m =
        Command.draw fb (.texTriangleDepth .perspective texture v) st m) ∧
    ∀ {q : UInt32} {v : Corners Vertex}, q ≠ 0 → v.map Vertex.q = ⟨q, q, q⟩ →
      (∀ format, Command.draw fb (.texTriangle format .perspective texture v) st m =
        Command.draw fb (.texTriangle format .affine texture v) st m) ∧
      Command.draw fb (.texTriangleDepth .perspective texture v) st m =
        Command.draw fb (.texTriangleDepth .affine texture v) st m := by
  constructor
  · intro k v v' hk h
    exact ⟨fun format ↦ drawTriangle_scaled hk h, drawTriangle_scaled hk h⟩
  · intro q v hne hq
    exact ⟨fun format ↦ drawTriangle_uniform hq hne, drawTriangle_uniform hq hne⟩

/-- A triangle that fills the guard band, with perspective weights so long that the first attempt at
a coordinate fails, and one with the same perspective weight at all corners. -/
theorem draw_projective_retried :
    let v : Corners Vertex :=
      ⟨⟨-16777216, -16777216, 2147483647, 0, 2147483647, 9⟩,
        ⟨16777216, -16777216, 2147483647, 0, 2147483645, 8⟩,
        ⟨0, 16777216, 0, 2147483647, 2147483643, 7⟩⟩
    let v' : Corners Vertex := v.map fun u ↦ { u with q := u.q * 2 }
    let u : Corners Vertex := ⟨⟨0, 0, 0, 0, 3, 1⟩, ⟨4, 0, 9, 0, 3, 2⟩, ⟨0, 4, 0, -9, 3, 3⟩⟩
    let fb : Framebuffer := ⟨0, 4, 4, 4⟩
    let st : RenderState := { RenderState.initial 4 4 with filter := .bilinear }
    let texture : Texture := ⟨16, 4, 4, 4⟩
    (∃ tri, Oriented.ofVertices v = some tri ∧ tri.covers 0 0 = true ∧
      TextureCoord.weighted (tri.weights 0 0) tri.vertices
        (TextureCoord.reciprocals ⟨2147483647, 2147483645, 2147483643⟩) = none) ∧
    ∀ m : Rdram,
      Command.draw fb (.texTriangle .ia8 .perspective texture v') st m =
          Command.draw fb (.texTriangle .ia8 .perspective texture v) st m ∧
        Command.draw fb (.texTriangleDepth .perspective texture v') st m =
          Command.draw fb (.texTriangleDepth .perspective texture v) st m ∧
        Command.draw fb (.texTriangle .rgba16 .perspective texture u) st m =
          Command.draw fb (.texTriangle .rgba16 .affine texture u) st m := by
  intro v v' u fb st texture
  have hscaled : v.Scaled 2 v' := by
    have hcast {n n' : Nat} (h : n' = 2 * n) : (n' : ℚ) = 2 * n := by exact_mod_cast h
    exact ⟨⟨rfl, hcast (by decide)⟩, ⟨rfl, hcast (by decide)⟩,
      ⟨rfl, hcast (by decide)⟩⟩
  let tri : Oriented :=
    ⟨v, v.map Vertex.point, signedArea (v.map Vertex.point), rfl, rfl, by decide⟩
  have htri : Oriented.ofVertices v = some tri := Oriented.ofVertices_of_pos tri.area_pos
  refine ⟨⟨tri, htri, by decide, by decide⟩, fun m ↦ ?_⟩
  obtain ⟨hratios, huniform⟩ := draw_projective fb st m texture
  obtain ⟨hplain, hdepth⟩ := hratios (show (0 : ℚ) < 2 by norm_num) hscaled
  exact ⟨hplain .ia8, hdepth, (huniform (show (3 : UInt32) ≠ 0 by decide) rfl).1 .rgba16⟩

end DisplayRaster
