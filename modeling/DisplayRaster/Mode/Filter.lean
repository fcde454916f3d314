/-!
# Texture filters

How a color is made from the texels around a coordinate.
-/

set_option autoImplicit false

namespace DisplayRaster

/-- How a color is made from the texels around a coordinate. -/
inductive TextureFilter where
  | nearest
  | bilinear
  deriving DecidableEq

namespace TextureFilter

/-- The filter of a stream word: bilinear iff it is one. -/
def ofBits (bits : UInt32) : TextureFilter := if bits = 1 then .bilinear else .nearest

/-- The stream word of a filter. -/
def toBits : TextureFilter → UInt32
  | .nearest => 0
  | .bilinear => 1

@[simp]
theorem ofBits_toBits (f : TextureFilter) : ofBits f.toBits = f := by cases f <;> decide

end TextureFilter

end DisplayRaster
