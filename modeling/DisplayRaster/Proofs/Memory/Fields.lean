import DisplayRaster.Memory.Basic
import Mathlib.Algebra.Ring.Nat

/-!
# Fields of words

Words are packed by shifts and disjunctions and unpacked by shifts and masks.  Each lemma gives one
of these as arithmetic on the values: a field shifted left over a narrower one is a sum, a shift to
the right a quotient and a mask a remainder.  With them, reading back what was packed is `omega`.
-/

set_option autoImplicit false

namespace DisplayRaster

namespace Field

/-- Two fields in one word. -/
theorem toNat_shiftLeft_or {high low k : UInt32} {n : Nat} (hk : k.toNat = n) (hn : n < 32)
    (hhigh : high.toNat * 2 ^ n < 2 ^ 32) (hlow : low.toNat < 2 ^ n) :
    ((high <<< k) ||| low).toNat = high.toNat * 2 ^ n + low.toNat := by
  rw [UInt32.toNat_or, UInt32.toNat_shiftLeft, hk, Nat.mod_eq_of_lt hn,
    Nat.mod_eq_of_lt (by rwa [Nat.shiftLeft_eq]), ← Nat.shiftLeft_add_eq_or_of_lt hlow,
    Nat.shiftLeft_eq]

/-- A field with nothing under it. -/
theorem toNat_shiftLeft {high k : UInt32} {n : Nat} (hk : k.toNat = n) (hn : n < 32)
    (hhigh : high.toNat * 2 ^ n < 2 ^ 32) : (high <<< k).toNat = high.toNat * 2 ^ n := by
  rw [UInt32.toNat_shiftLeft, hk, Nat.mod_eq_of_lt hn, Nat.mod_eq_of_lt (by rwa [Nat.shiftLeft_eq]),
    Nat.shiftLeft_eq]

theorem toNat_shiftRight {w k : UInt32} {n : Nat} (hk : k.toNat = n) (hn : n < 32) :
    (w >>> k).toNat = w.toNat / 2 ^ n := by
  rw [UInt32.toNat_shiftRight, hk, Nat.mod_eq_of_lt hn, Nat.shiftRight_eq_div_pow]

theorem toNat_mask {w mask : UInt32} {n : Nat} (hmask : mask.toNat = 2 ^ n - 1) :
    (w &&& mask).toNat = w.toNat % 2 ^ n := by
  rw [UInt32.toNat_and, hmask, Nat.and_two_pow_sub_one_eq_mod]

/-- A mask keeps what fits under it. -/
theorem mask_eq_self {w mask : UInt32} {n : Nat} (hmask : mask.toNat = 2 ^ n - 1)
    (hw : w.toNat < 2 ^ n) : w &&& mask = w := by
  apply UInt32.toNat_inj.1
  rw [toNat_mask hmask, Nat.mod_eq_of_lt hw]

end Field

end DisplayRaster
