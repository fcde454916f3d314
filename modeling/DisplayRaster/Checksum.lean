import DisplayRaster.Hex

/-!
# Checksums

The 32-bit cyclic redundancy check of a byte string: reflected, with the polynomial `0xEDB88320`,
all ones to start with and the complement at the end.  `Checksum.shift` works one bit;
`Checksum.table` holds eight shifts of every byte, so that `Checksum.step` can take a byte at once.
-/

set_option autoImplicit false

namespace DisplayRaster

namespace Checksum

/-- Divide by one more bit. -/
def shift (remainder : UInt32) : UInt32 :=
  if remainder &&& 1 = 1 then (remainder >>> 1) ^^^ 0xEDB88320 else remainder >>> 1

/-- `shift` repeated. -/
def shifts : (count : Nat) → UInt32 → UInt32
  | 0, remainder => remainder
  | count + 1, remainder => shifts count (shift remainder)

/-- The remainder of every byte. -/
def table : Vector UInt32 256 := Vector.ofFn fun byte ↦ shifts 8 (UInt32.ofNat byte.val)

/-- Divide by one more byte. -/
def step (remainder : UInt32) (byte : UInt8) : UInt32 :=
  table.get ⟨(remainder.toUInt8 ^^^ byte).toNat, UInt8.toNat_lt _⟩ ^^^ (remainder >>> 8)

/-- The checksum of a byte string. -/
def crc32 (data : ByteArray) : UInt32 := data.foldl step 0xFFFFFFFF ^^^ 0xFFFFFFFF

/-- A checksum as eight lowercase digits. -/
def text (checksum : UInt32) : String := Hex.fixed .lower 8 checksum.toNat

end Checksum

end DisplayRaster
