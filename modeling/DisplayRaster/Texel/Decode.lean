import DisplayRaster.Color
import DisplayRaster.Texel.Format

/-!
# Decoding texels

The packed color of one texel of each direct format, and the packed colors of a whole image.  The
sampler reads single texels with the same functions, so a decoded image and a sampled texture agree.

An intensity `v` out of `max` becomes the gray `round(v * 31 / max)`.  An image shorter than its
declared size decodes as far as it has complete texels.
-/

set_option autoImplicit false

namespace DisplayRaster

/-- The high half of a byte. -/
def highNibble (byte : UInt8) : UInt8 := byte >>> 4

/-- The low half of a byte. -/
def lowNibble (byte : UInt8) : UInt8 := byte &&& 0x0F

/-- Two four-bit texels share a byte; the one with the even index is the high half. -/
def nibbleAt (byte : UInt8) (index : Nat) : UInt8 :=
  if index % 2 = 0 then highNibble byte else lowNibble byte

theorem toNat_nibbleAt_lt (byte : UInt8) (index : Nat) : (nibbleAt byte index).toNat < 16 := by
  have hbyte := byte.toNat_lt
  rw [nibbleAt]
  split
  · have hshift : (byte >>> 4).toNat = byte.toNat >>> 4 := UInt8.toNat_shiftRight byte 4
    rw [highNibble, hshift, Nat.shiftRight_eq_div_pow]
    omega
  · rw [lowNibble, UInt8.toNat_and]
    exact Nat.lt_of_le_of_lt Nat.and_le_right (by decide)

namespace Texel

/-- An intensity out of `max` scaled to `0..31` and rounded to nearest. -/
def fiveBit (value max : Nat) : UInt8 := UInt8.ofNat ((value * 31 + max / 2) / max)

/-- A four-bit intensity; it is transparent iff it is zero. -/
def i4 (value : UInt8) : UInt16 :=
  let v := lowNibble value
  (Color.gray (fiveBit v.toNat 15) (v > 0)).toPacked

/-- An eight-bit intensity; it is transparent iff it is zero. -/
def i8 (value : UInt8) : UInt16 :=
  (Color.gray (fiveBit value.toNat 255) (value > 0)).toPacked

/-- Four bits of intensity over four of alpha; opaque from the middle of the alpha range. -/
def ia8 (value : UInt8) : UInt16 :=
  (Color.gray (fiveBit (highNibble value).toNat 15) (lowNibble value ≥ 8)).toPacked

/-- Eight bits of intensity over eight of alpha; opaque from the middle of the alpha range. -/
def ia16 (value : UInt16) : UInt16 :=
  (Color.gray (fiveBit (value >>> 8).toNat 255) (value &&& 0xFF ≥ 128)).toPacked

end Texel

/-- A big-endian halfword. -/
def halfword (high low : UInt8) : UInt16 := (high.toUInt16 <<< 8) ||| low.toUInt16

namespace Bitmap

/-- How many texels are decoded: the declared size, or as many as there are. -/
def decodedCount (width height : UInt32) (available : Nat) : Nat :=
  min (width.toNat * height.toNat) available

/-- The entry of a palette; a short palette continues with transparent black. -/
def paletteEntry (palette : Array UInt16) (index : UInt8) : UInt16 :=
  palette[index.toNat]?.getD 0

/-- The byte at an offset of an image. -/
def byteAt (data : ByteArray) (i : Nat) : UInt8 :=
  if h : i < data.size then data[i] else 0

/-- The four-bit texels of an image. -/
def nibbles (data : ByteArray) (width height : UInt32) : List UInt8 :=
  (List.range (decodedCount width height (data.size * 2))).map fun i ↦
    nibbleAt (byteAt data (i / 2)) i

/-- The eight-bit texels of an image. -/
def octets (data : ByteArray) (width height : UInt32) : List UInt8 :=
  (List.range (decodedCount width height data.size)).map fun i ↦ byteAt data i

/-- The sixteen-bit texels of an image. -/
def halfwords (data : ByteArray) (width height : UInt32) : List UInt16 :=
  (List.range (decodedCount width height (data.size / 2))).map fun i ↦
    halfword (byteAt data (2 * i)) (byteAt data (2 * i + 1))

/-- The packed colors of an image in any format; `palette` is used by the indexed formats only. -/
def decode (format : TexelFormat) (palette : Array UInt16) (data : ByteArray)
    (width height : UInt32) : List UInt16 :=
  match format with
  | .ci4 => (nibbles data width height).map (paletteEntry palette)
  | .ci8 => (octets data width height).map (paletteEntry palette)
  | .rgba16 => halfwords data width height
  | .i4 => (nibbles data width height).map Texel.i4
  | .i8 => (octets data width height).map Texel.i8
  | .ia8 => (octets data width height).map Texel.ia8
  | .ia16 => (halfwords data width height).map Texel.ia16

/-- An image decodes to its declared number of texels, or to as many as its data holds. -/
theorem length_decode (format : TexelFormat) (palette : Array UInt16) (data : ByteArray)
    (width height : UInt32) :
    (decode format palette data width height).length =
      decodedCount width height (data.size * 8 / format.texelBits) := by
  have h4 : data.size * 8 / 4 = data.size * 2 := by omega
  have h8 : data.size * 8 / 8 = data.size := by omega
  have h16 : data.size * 8 / 16 = data.size / 2 := by omega
  cases format <;>
    simp [decode, nibbles, octets, halfwords, TexelFormat.texelBits, h4, h8, h16]

end Bitmap

end DisplayRaster
