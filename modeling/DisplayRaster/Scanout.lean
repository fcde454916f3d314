import DisplayRaster.Checksum
import DisplayRaster.Memory.Basic
import DisplayRaster.Framebuffer
import DisplayRaster.Region

/-!
# Scanout

What the display shows: every pixel of the framebuffer, row by row, as four bytes of red, green,
blue and full opacity.  A pixel that cannot be read is black.
-/

set_option autoImplicit false

namespace DisplayRaster

namespace Framebuffer

/-- The pixels of a framebuffer. -/
def region (fb : Framebuffer) : Region := ⟨0, 0, fb.width.toNat, fb.height.toNat⟩

/-- The address of the first pixel of a row. -/
def rowStart (fb : Framebuffer) (y : Int) : UInt32 := fb.origin + coordWord y * fb.stride * 2

variable {μ : Type} [Memory μ]

/-- The packed color of a pixel as it is displayed, counted from the start of its row. -/
@[specialize]
def shown (fb : Framebuffer) (m : μ) (x y : Int) : UInt16 :=
  Memory.halfOr 0 m (fb.rowStart y + coordWord x * 2)

/-- The display bytes of a framebuffer. -/
@[specialize]
def scanout (fb : Framebuffer) (m : μ) : ByteArray :=
  fb.region.foldRows (fun bytes x y ↦
    (Color.ofPacked (fb.shown m x y)).toRgba8888.foldl ByteArray.push bytes) .empty

/-- The checksum of the display bytes. -/
@[specialize]
def checksum (fb : Framebuffer) (m : μ) : UInt32 := Checksum.crc32 (fb.scanout m)

end Framebuffer

end DisplayRaster
