import DisplayRaster.Extent

/-!
# Framebuffers

A framebuffer is a rectangle of packed colors in memory, one halfword a pixel, whose rows are
`stride` pixels apart.
-/

set_option autoImplicit false

namespace DisplayRaster

/-- Where the pixels are. -/
structure Framebuffer where
  /-- The address of the first pixel. -/
  origin : UInt32
  /-- The pixels from one row to the next. -/
  stride : UInt32
  width : UInt32
  height : UInt32
  deriving DecidableEq

namespace Framebuffer

/-- The address of a pixel. -/
def addressOf (fb : Framebuffer) (x y : Int) : UInt32 :=
  fb.origin + (coordWord y * fb.stride + coordWord x) * 2

/-- Whether a pixel is drawable. -/
def contains (fb : Framebuffer) (x y : Int) : Bool := inExtent fb.width fb.height x y

end Framebuffer

end DisplayRaster
