import DisplayRaster.Proofs.Draw.Triangles
import DisplayRaster.Proofs.Texture.Order

/-!
# Perspective triangles and the order of their corners

A perspective triangle draws the same with its corners turned over, because the draw puts them into
one order of rotation.  Starting with another corner, it visits and covers the same pixels at the
same depths, and each texture coordinate has the same corners with the same weights in another
order.  So it leaves the same memory where these coordinates do not take an order (`SteadyDraw`),
and it need not elsewhere: `perspective_order_matters` has a triangle across the guard band that
samples one texel in one order and its neighbor in another.
-/

set_option autoImplicit false

namespace DisplayRaster

open TextureCoord (Mild attempt firstFits perspective truncated)

namespace Oriented

variable {tri : Oriented} {x y : Int}

/-- The corners of a triangle with their weights at a pixel. -/
def shares (tri : Oriented) (x y : Int) : Shares := (tri.weights x y).zipWith Prod.mk tri.vertices

theorem inRange_shares (hcovers : tri.covers x y = true) : (tri.shares x y).InRange where
  nonneg := weights_nonneg hcovers
  sum_le := tri.sum_weights_le x y

/-- The first attempt at each coordinate of a triangle comes out alike in every order. -/
def Steady (tri : Oriented) : Prop := ∀ x y, tri.covers x y = true → (tri.shares x y).Steady

theorem Steady.rotate (h : tri.Steady) : tri.rotate.Steady := fun x y hcovers ↦
  (h x y (tri.covers_rotate x y ▸ hcovers)).of_perm (tri.shares x y).perm_rotate.symm

theorem Steady.drawsLike_rotate (h : tri.Steady) :
    tri.rotate.DrawsLike tri .perspective .perspective :=
  drawsLike_rotate_of_coord fun {x y} hcovers ↦
    (h x y hcovers).perspective_eq (inRange_shares hcovers) (tri.shares x y).perm_rotate.symm

end Oriented

/-! ## Steady draws -/

/-- A draw of the corners takes the same attempt at each coordinate in every order. -/
def SteadyDraw (v : Corners Vertex) : Prop :=
  ∀ tri, Oriented.ofVertices v = some tri → tri.Steady

theorem steadyDraw_flip (v : Corners Vertex) : SteadyDraw v.flip = SteadyDraw v := by
  rw [SteadyDraw, SteadyDraw, Oriented.ofVertices_flip]

theorem SteadyDraw.rotate {v : Corners Vertex} (h : SteadyDraw v) : SteadyDraw v.rotate := by
  intro tri' htri'
  rcases Oriented.ofVertices_rotate v with hrotate | hrotate
  · obtain ⟨tri, htri, rfl⟩ := Option.map_eq_some_iff.1 (hrotate.symm.trans htri')
    exact (h tri htri).rotate
  · obtain ⟨tri, htri, rfl⟩ := Option.map_eq_some_iff.1 (hrotate.symm.trans htri')
    exact (h tri htri).rotate.rotate

theorem steadyDraw_rotate (v : Corners Vertex) : SteadyDraw v.rotate = SteadyDraw v :=
  propext ⟨fun h ↦ h.rotate.rotate, SteadyDraw.rotate⟩

theorem steadyDraw_of_mild {v : Corners Vertex} (h : Mild v) : SteadyDraw v := by
  intro tri htri x y hcovers
  have hmild : Mild tri.vertices := by
    rcases Oriented.vertices_eq_or_flip htri with heq | heq
    · exact heq ▸ h
    · exact heq ▸ h.of_perm v.perm_flip.symm
  exact Shares.steady_of_mild (Oriented.inRange_shares hcovers) hmild

section

variable {μ : Type} [Memory μ] {fb : Framebuffer} {st : RenderState} {m : μ}
  {source? : Option TexelSource} {carriesDepth : Bool}

/-- **A steady draw leaves the same memory in every order of the corners.** -/
theorem SteadyDraw.drawTriangle_eq {v v' : Corners Vertex} (hv : SteadyDraw v)
    (h : v'.toList.Perm v.toList) :
    drawTriangle fb st m v' source? .perspective carriesDepth =
      drawTriangle fb st m v source? .perspective carriesDepth := by
  -- Each order is steady again, and this goes along with the memory from one order to the next.
  have hboth : ∀ m', (SteadyDraw v' ∧
      drawTriangle fb st m v' source? .perspective carriesDepth = m') = (SteadyDraw v ∧
      drawTriangle fb st m v source? .perspective carriesDepth = m') := by
    intro m'
    refine Corners.eq_of_perm (f := fun v ↦ SteadyDraw v ∧
      drawTriangle fb st m v source? .perspective carriesDepth = m') (fun v ↦ ?_) (fun v ↦ ?_) h
    · rw [steadyDraw_flip, drawTriangle_flip]
    · rw [steadyDraw_rotate]
      refine propext (and_congr_right fun hv ↦ ?_)
      rw [drawTriangle_rotate_of_drawsLike fun tri htri ↦
        ⟨(hv tri htri).drawsLike_rotate, (hv tri htri).rotate.drawsLike_rotate⟩]
  exact ((hboth _).mpr ⟨hv, rfl⟩).2

end

/-- **The order of the corners decides at most which attempt gives a perspective coordinate**, and
both attempts are the same in all orders.  Turning a triangle over never changes what it draws, and
starting with another corner does not if the draw is steady or the corners are mild. -/
theorem drawTriangle_perspective_order {μ : Type} [Memory μ] (fb : Framebuffer) (st : RenderState)
    (m : μ) (v : Corners Vertex) (source? : Option TexelSource) (carriesDepth : Bool) :
    (∀ {p p' : Shares}, p.InRange → p'.toList.Perm p.toList →
      perspective p'.weights p'.vertices =
          (if firstFits p'.weights p'.vertices then attempt id p.weights p.vertices
            else attempt truncated p.weights p.vertices) ∧
        (p.Steady ∨ Mild p.vertices →
          perspective p'.weights p'.vertices = perspective p.weights p.vertices)) ∧
    drawTriangle fb st m v.flip source? .perspective carriesDepth =
      drawTriangle fb st m v source? .perspective carriesDepth ∧
    ∀ {v' : Corners Vertex}, v'.toList.Perm v.toList → SteadyDraw v ∨ Mild v →
      drawTriangle fb st m v' source? .perspective carriesDepth =
        drawTriangle fb st m v source? .perspective carriesDepth := by
  refine ⟨fun {p p'} hp h ↦ ⟨Shares.perspective_of_perm hp h, fun hsteady ↦ ?_⟩,
    drawTriangle_flip v .perspective, fun {v'} h hsteady ↦ ?_⟩
  · exact (hsteady.elim id (Shares.steady_of_mild hp)).perspective_eq hp h
  · exact (hsteady.elim id steadyDraw_of_mild).drawTriangle_eq h

/-- A triangle across the guard band with long perspective weights and texture coordinates of one
sign, and a small one with coordinates of both. -/
theorem drawTriangle_perspective_order_mild :
    let long : Corners Vertex :=
      ⟨⟨-16777216, -16777216, 2147483647, 0, 2147483647, 9⟩,
        ⟨16777216, -16777216, 2147483647, 0, 2147483645, 8⟩,
        ⟨0, 16777216, 0, 2147483647, 2147483643, 7⟩⟩
    let short : Corners Vertex :=
      ⟨⟨0, 0, 4, -3, 65536, 1⟩, ⟨4, 0, -9, 0, 3, 2⟩, ⟨0, 4, 0, -9, 0, 3⟩⟩
    let p : Shares := ⟨(2 ^ 51, long.a), (2 ^ 51, long.b), (2 ^ 52, long.c)⟩
    let p' : Shares := p.rotate
    let fb : Framebuffer := ⟨0, 4, 4, 4⟩
    let st : RenderState := { RenderState.initial 4 4 with filter := .bilinear }
    let source? : Option TexelSource := some ⟨.ia8, ⟨16, 4, 4, 4⟩⟩
    ∀ m : Rdram,
      perspective p'.weights p'.vertices = attempt truncated p.weights p.vertices ∧
        perspective p'.weights p'.vertices = perspective p.weights p.vertices ∧
        drawTriangle fb st m long.rotate source? .perspective true =
          drawTriangle fb st m long source? .perspective true ∧
        drawTriangle fb st m ⟨short.c, short.b, short.a⟩ source? .perspective false =
          drawTriangle fb st m short source? .perspective false := by
  intro long short p p' fb st source? m
  have hp : p.InRange := ⟨⟨by decide, by decide, by decide⟩, by decide⟩
  have hlong : Mild long :=
    .inl ⟨.inl ⟨by decide, by decide, by decide⟩, .inl ⟨by decide, by decide, by decide⟩⟩
  have hshort : Mild short := .inr ⟨65536, 9, {
    n_pos := by decide
    limit_pos := by decide
    q_le := ⟨by decide, by decide, by decide⟩
    s_le := ⟨by decide, by decide, by decide⟩
    t_le := ⟨by decide, by decide, by decide⟩
    product_le := by decide }⟩
  obtain ⟨hcoord, -, hdraw⟩ := drawTriangle_perspective_order fb st m long source? true
  obtain ⟨hattempt, hsame⟩ := hcoord hp p.perm_rotate.symm
  obtain ⟨-, -, hdraw'⟩ := drawTriangle_perspective_order fb st m short source? false
  refine ⟨?_, hsame (.inr hlong), hdraw long.perm_rotate.symm (.inr hlong),
    hdraw' (by decide) (.inr hshort)⟩
  rw [hattempt]
  exact if_neg (by decide)

/-- A triangle whose coordinate at a pixel has two long terms of one sign and one of the other.
With the long ones first their sum does not fit, though the whole sum does, and the second attempt
samples the neighboring texel. -/
theorem perspective_order_matters :
    let v : Corners Vertex :=
      ⟨⟨-16777216, -16777216, -7700, 0, 131071, 0⟩,
        ⟨16777216, -16777216, 240000000, 0, 4294967295, 0⟩,
        ⟨0, 16777216, 120000000, 0, 4294967295, 0⟩⟩
    let p : Shares :=
      ⟨(1125899806179328, v.a), (1125899940397056, v.b), (2251799880794112, v.c)⟩
    let p' : Shares := p.rotate
    let coord := perspective p.weights p.vertices
    let coord' := perspective p'.weights p'.vertices
    let fb : Framebuffer := ⟨0, 1, 1, 1⟩
    let m := (Memory.write32 (Rdram.zeroed 16) 8 0x0001FFFF).memory
    let pixel (v : Corners Vertex) := Memory.read16
      (drawTriangle fb (RenderState.initial 1 1) m v (some ⟨.rgba16, ⟨8, 2, 1, 2⟩⟩) .perspective
        false) 0
    (p.InRange ∧ p'.toList.Perm p.toList) ∧
      (firstFits p.weights p.vertices = true ∧ firstFits p'.weights p'.vertices = false) ∧
      coord.s * coord'.den ≠ coord'.s * coord.den ∧
      pixel v = .ok 0xFFFF ∧ pixel v.rotate = .ok 0x0001 := by
  intro v p p' coord coord' fb m pixel
  have hp : p.InRange := ⟨⟨by decide, by decide, by decide⟩, by decide⟩
  refine ⟨⟨hp, p.perm_rotate.symm⟩, by decide, by decide, ?_, ?_⟩
  · decide
  · decide

end DisplayRaster
