/-!
# Addressing modes

How a texture coordinate outside the texture is folded back into it, on one axis.
`AddressMode.fold` works on periods of at least one texel (`AddressMode.period`) and always lands
inside the period.  A mode is a small number in two kinds of words, streams and tile descriptors,
which number the modes differently.
-/

set_option autoImplicit false

namespace DisplayRaster

/-- What happens to a texture coordinate outside the texture, on one axis. -/
inductive AddressMode where
  /-- The nearest texel of the edge. -/
  | clamp
  /-- Repetition with the period of the texture. -/
  | wrap
  /-- Reflection at each edge. -/
  | mirror
  deriving DecidableEq

namespace AddressMode

/-- The mode in the low two bits of a stream word. -/
def ofBits (bits : UInt32) : AddressMode :=
  match bits &&& 3 with
  | 1 => .wrap
  | 2 => .mirror
  | _ => .clamp

/-- The stream word of a mode. -/
def toBits : AddressMode → UInt32
  | .clamp => 0
  | .wrap => 1
  | .mirror => 2

@[simp]
theorem ofBits_toBits (m : AddressMode) : ofBits m.toBits = m := by cases m <;> decide

/-- The mode in the low two bits of a tile descriptor: bit 0 mirrors, bit 1 clamps. -/
def ofTileBits (bits : UInt32) : AddressMode :=
  match bits &&& 3 with
  | 0 => .wrap
  | 1 => .mirror
  | _ => .clamp

/-- The tile descriptor bits of a mode. -/
def toTileBits : AddressMode → UInt32
  | .wrap => 0
  | .mirror => 1
  | .clamp => 2

@[simp]
theorem ofTileBits_toTileBits (m : AddressMode) : ofTileBits m.toTileBits = m := by
  cases m <;> decide

/-- The period that addressing works with: at least one texel, and so few that two periods fit in a
signed word. -/
def period (size : UInt32) : Nat := max 1 (min size.toNat 0x3FFFFFFF)

theorem period_pos (size : UInt32) : 0 < period size := by unfold period; omega

/-- The texel in `0..period` that a coordinate stands for. -/
def fold (mode : AddressMode) (coord : Int) (size : UInt32) : Nat :=
  let n := period size
  match mode with
  | .clamp => (max 0 (min coord (n - 1))).toNat
  | .wrap => (coord % n).toNat
  | .mirror =>
    let m := (coord % (2 * n)).toNat
    if m < n then m else 2 * n - 1 - m

theorem natCast_fold_clamp (coord : Int) (size : UInt32) :
    (fold .clamp coord size : Int) = max 0 (min coord (period size - 1)) := by
  have hn := period_pos size
  simp only [fold]
  omega

theorem natCast_fold_wrap (coord : Int) (size : UInt32) :
    (fold .wrap coord size : Int) = coord % period size := by
  have hn := period_pos size
  exact Int.toNat_of_nonneg (Int.emod_nonneg coord (by omega))

/-- The remainder in two periods, or its distance from the last texel of them. -/
theorem natCast_fold_mirror (coord : Int) (size : UInt32) :
    (fold .mirror coord size : Int) =
      min (coord % (2 * period size)) (2 * period size - 1 - coord % (2 * period size)) := by
  have hn := period_pos size
  have h := Int.emod_nonneg coord (b := 2 * (period size : Int)) (by omega)
  have h' := Int.emod_lt_of_pos coord (b := 2 * (period size : Int)) (by omega)
  simp only [fold]
  split <;> omega

/-- Folding lands inside the period. -/
theorem fold_lt (mode : AddressMode) (coord : Int) (size : UInt32) :
    mode.fold coord size < period size := by
  have hn := period_pos size
  cases mode with
  | clamp =>
    have h := natCast_fold_clamp coord size
    omega
  | wrap =>
    have h := natCast_fold_wrap coord size
    have h' := Int.emod_lt_of_pos coord (b := period size) (by omega)
    omega
  | mirror =>
    have h := natCast_fold_mirror coord size
    omega

/-- Inside the period a coordinate stands for itself, in every mode. -/
theorem fold_of_lt_period (mode : AddressMode) {coord : Int} {size : UInt32} (h0 : 0 ≤ coord)
    (hlt : coord < period size) : mode.fold coord size = coord.toNat := by
  cases mode with
  | clamp =>
    have h := natCast_fold_clamp coord size
    omega
  | wrap =>
    have h := natCast_fold_wrap coord size
    rw [Int.emod_eq_of_lt h0 hlt] at h
    omega
  | mirror =>
    have h := natCast_fold_mirror coord size
    rw [Int.emod_eq_of_lt h0 (by omega)] at h
    omega

end AddressMode

end DisplayRaster
