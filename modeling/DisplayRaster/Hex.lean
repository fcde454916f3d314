/-!
# Hexadecimal text

Addresses, checksums and byte strings are written in hexadecimal.  `Hex.fixed` writes the low digits
of a number with leading zeros, in upper or lower case, and `Hex.bytes` writes a byte string two
lowercase digits a byte.
-/

set_option autoImplicit false

namespace DisplayRaster

namespace Hex

/-- Which letters stand for the digits ten to fifteen. -/
inductive Case where
  | lower
  | upper
  deriving DecidableEq

/-- The digit for `n % 16`. -/
def digit (letters : Case) (n : Nat) : Char :=
  let d := n % 16
  if d < 10 then Char.ofNat (48 + d)
  else match letters with
    | .lower => Char.ofNat (87 + d)
    | .upper => Char.ofNat (55 + d)

/-- The low `width` hexadecimal digits of `n`, the most significant one first. -/
def digits (letters : Case) : (width : Nat) → (n : Nat) → List Char
  | 0, _ => []
  | width + 1, n => digits letters width (n / 16) ++ [digit letters n]

@[simp]
theorem length_digits (letters : Case) (width n : Nat) :
    (digits letters width n).length = width := by
  induction width generalizing n with
  | zero => rfl
  | succ width ih => simp [digits, ih]

/-- The low `width` hexadecimal digits of `n` as text. -/
def fixed (letters : Case) (width n : Nat) : String :=
  String.ofList (digits letters width n)

/-- A byte string, two lowercase digits a byte. -/
def bytes (data : ByteArray) : String :=
  data.foldl (fun text byte ↦
    (text.push (digit .lower (byte.toNat / 16))).push (digit .lower byte.toNat)) ""

end Hex

end DisplayRaster
