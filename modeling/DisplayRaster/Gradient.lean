import DisplayRaster.Region
import DisplayRaster.RenderState

/-!
# Gradients

A horizontal ramp from one color to another over the width of the framebuffer.  It fills the scissor
column by column and is written as it is, without blending.
-/

set_option autoImplicit false

namespace DisplayRaster

variable {μ : Type} [Memory μ]

/-- One channel of a ramp from `c0` at column 0 to `c1` at column `span`, rounded to nearest. -/
def rampChannel (c0 c1 : UInt8) (x span : UInt32) : UInt8 :=
  ((c0.toUInt32 * (span - x) + c1.toUInt32 * x + span / 2) / span).toUInt8

/-- The color of a gradient in column `x` of `width`; it is opaque. -/
def rampColor (left right : Color) (x width : UInt32) : UInt16 :=
  if width ≤ 1 then Color.toPacked { left with a := true }
  else
    let span := width - 1
    Color.toPacked
      { r := rampChannel left.r right.r x span
        g := rampChannel left.g right.g x span
        b := rampChannel left.b right.b x span
        a := true }

/-- The pixels inside a scissor. -/
def Scissor.region (r : Scissor) : Region := ⟨r.x0.toInt, r.y0.toInt, r.x1.toInt, r.y1.toInt⟩

/-- Paint the scissor with a gradient that spans the framebuffer. -/
@[specialize]
def drawGradient (fb : Framebuffer) (st : RenderState) (m : μ) (left right : UInt16) : μ :=
  st.scissor.region.foldColumns (fun m x y ↦
    (Memory.write16 m (fb.addressOf x y)
      (rampColor (Color.ofPacked left) (Color.ofPacked right) (coordWord x) fb.width)).memory) m

end DisplayRaster
