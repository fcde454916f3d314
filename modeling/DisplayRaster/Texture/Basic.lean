import DisplayRaster.Texel.Format

/-!
# Textures

Where the texels of a draw are: the first one's address, the size that addressing works with, and
the texels from one row to the next.
-/

set_option autoImplicit false

namespace DisplayRaster

/-- A texture in memory. -/
structure Texture where
  /-- The address of the first texel. -/
  addr : UInt32
  /-- The width in texels, the period of horizontal addressing. -/
  width : UInt32
  /-- The height in texels, the period of vertical addressing. -/
  height : UInt32
  /-- The texels from one row to the next. -/
  pitch : UInt32
  deriving DecidableEq

namespace Texture

/-- A texture whose rows follow each other without a gap. -/
def packed (addr width height : UInt32) : Texture := ⟨addr, width, height, width⟩

/-- Whether the texture has no texels. -/
def isEmpty (t : Texture) : Bool := t.width = 0 || t.height = 0

end Texture

/-- A texture together with the format of its texels. -/
structure TexelSource where
  format : TexelFormat
  texture : Texture
  deriving DecidableEq

end DisplayRaster
