import DisplayRaster.Fragment
import DisplayRaster.Region
import DisplayRaster.Texture.Fetch

/-!
# Rectangles

A rectangle shows its texture texel for pixel, with the first texel at its upper left corner.  Only
its part inside the scissor is visited.
-/

set_option autoImplicit false

namespace DisplayRaster

variable {μ : Type} [Memory μ]

/-- The pixels of a rectangle at `(x, y)` that lie inside the scissor. -/
def rectRegion (scissor : Scissor) (texture : Texture) (x y : Int) : Region where
  x0 := max x scissor.x0.toInt
  y0 := max y scissor.y0.toInt
  x1 := min (x + texture.width.toNat) scissor.x1.toInt
  y1 := min (y + texture.height.toNat) scissor.y1.toInt

theorem contains_rectRegion {scissor : Scissor} {texture : Texture} {x y px py : Int} :
    (rectRegion scissor texture x y).Contains px py ↔
      (x ≤ px ∧ px < x + texture.width.toNat ∧ y ≤ py ∧ py < y + texture.height.toNat) ∧
        scissor.contains px py = true := by
  simp only [Region.Contains, Scissor.contains_eq_true, rectRegion]
  omega

/-- The color of a paint at a texel. -/
@[specialize]
def Paint.colorAtTexel (paint : Paint) (st : RenderState) (m : μ) (s t : Int) : UInt16 :=
  match paint with
  | .flat color => color
  | .texels source => texelAt st m source s.toNat t.toNat

/-- Draw a texture with its first texel at `(x, y)`. -/
@[specialize]
def drawRect (fb : Framebuffer) (st : RenderState) (m : μ) (source : TexelSource) (x y : Int) : μ :=
  match Paint.choose st (some source) with
  | some paint =>
    (rectRegion st.scissor source.texture x y).foldRows (fun m px py ↦
      Fragment.write fb st m
        { x := px, y := py
          color := paint.colorAtTexel st m (px - x) (py - y)
          punchThrough := paint.punchThrough
          depth := none }) m
  | none => m

end DisplayRaster
