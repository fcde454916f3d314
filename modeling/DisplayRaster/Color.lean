/-!
# Packed colors

A pixel is a halfword of five red, five green and five blue bits and one alpha bit, from the top.
`Color.ofPacked` and `Color.toPacked` go between the halfword and its channels, and
`Color.toRgba8888` widens the channels for display.  A channel outside `0..31` is legal; packing
keeps its low five bits.
-/

set_option autoImplicit false

namespace DisplayRaster

/-- The channels of a packed color. -/
structure Color where
  r : UInt8
  g : UInt8
  b : UInt8
  /-- The punch-through bit. -/
  a : Bool
  deriving DecidableEq

namespace Color

/-- The color with all three channels at `level`. -/
def gray (level : UInt8) (a : Bool) : Color := ⟨level, level, level, a⟩

/-- The channels of a packed color. -/
def ofPacked (value : UInt16) : Color where
  r := ((value >>> 11) &&& 0x1F).toUInt8
  g := ((value >>> 6) &&& 0x1F).toUInt8
  b := ((value >>> 1) &&& 0x1F).toUInt8
  a := value &&& 1 != 0

/-- The packed color of the low five bits of each channel. -/
def toPacked (c : Color) : UInt16 :=
  ((c.r.toUInt16 &&& 0x1F) <<< 11) ||| ((c.g.toUInt16 &&& 0x1F) <<< 6) |||
    ((c.b.toUInt16 &&& 0x1F) <<< 1) ||| c.a.toUInt16

/-- A five-bit channel widened to eight bits: its top three bits are repeated below it. -/
def widen (channel : UInt8) : UInt8 := (channel <<< 3) ||| (channel >>> 2)

/-- The four display bytes of a color: the widened channels and full opacity, whatever the alpha
bit. -/
def toRgba8888 (c : Color) : List UInt8 := [widen c.r, widen c.g, widen c.b, 0xFF]

@[simp]
theorem length_toRgba8888 (c : Color) : c.toRgba8888.length = 4 := rfl

end Color

end DisplayRaster
