import DisplayRaster.DepthBuffer
import DisplayRaster.LookupTable
import DisplayRaster.Mode.Address
import DisplayRaster.Mode.Blend
import DisplayRaster.Mode.Combine
import DisplayRaster.Mode.Filter
import DisplayRaster.Framebuffer
import DisplayRaster.Scissor

/-!
# Renderer state

Everything that commands select and draws depend on, apart from memory and the framebuffer.  A
stream starts from `RenderState.initial` and its state ends with it.
-/

set_option autoImplicit false

namespace DisplayRaster

/-- The selections in force. -/
structure RenderState where
  /-- The lookup table, once one has been set. -/
  table : Option LookupTable
  /-- The bank of the lookup table that four-bit textures use. -/
  bank : UInt8
  primColor : UInt16
  envColor : UInt16
  combine : CombineMode
  addressS : AddressMode
  addressT : AddressMode
  filter : TextureFilter
  blend : BlendMode
  /-- Whether draws that carry depth are tested. -/
  depthEnabled : Bool
  depth : DepthBuffer
  /-- Clamped to the framebuffer. -/
  scissor : Scissor

namespace RenderState

/-- The selections at the start of a stream: an opaque white primitive color, a transparent black
environment color, the first of every mode, no lookup table, no depth buffer and a scissor as large
as the framebuffer. -/
def initial (width height : UInt32) : RenderState where
  table := none
  bank := 0
  primColor := 0xFFFF
  envColor := 0
  combine := .texture
  addressS := .clamp
  addressT := .clamp
  filter := .nearest
  blend := .off
  depthEnabled := false
  depth := .unset
  scissor := .full width height

/-- Whether draws that carry depth are tested against the depth buffer. -/
def testsDepth (st : RenderState) : Bool := st.depthEnabled && st.depth.isSet

end RenderState

end DisplayRaster
