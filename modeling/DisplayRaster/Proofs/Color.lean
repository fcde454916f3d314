import DisplayRaster.Color
import Mathlib.Algebra.Order.Ring.Nat

/-!
# Packing colors

A packed color is a number with its channels as digits: five bits each for red, green and blue, and
one for alpha.  Unpacking gives these digits (`Color.toNat_ofPacked`) and packing puts them together
(`Color.toNat_toPacked`), so a color that is unpacked and packed again is the same, and so is a
color of five-bit channels that is packed and unpacked again.
-/

set_option autoImplicit false

namespace DisplayRaster

namespace Color

/-! ## Unpacking -/

/-- A channel is five bits of the packed color. -/
theorem toNat_channel {value k : UInt16} {n : Nat} (hk : k.toNat = n) (hn : n < 16) :
    ((value >>> k) &&& 0x1F).toUInt8.toNat = value.toNat / 2 ^ n % 32 := by
  have hmask : (0x1F : UInt16).toNat = 2 ^ 5 - 1 := rfl
  rw [UInt16.toNat_toUInt8, UInt16.toNat_and, UInt16.toNat_shiftRight, hk, Nat.mod_eq_of_lt hn,
    hmask, Nat.and_two_pow_sub_one_eq_mod, Nat.shiftRight_eq_div_pow]
  omega

theorem toNat_alpha (value : UInt16) : (value &&& 1 != 0).toNat = value.toNat % 2 := by
  have hbit : (value &&& 1).toNat = value.toNat % 2 := by
    rw [UInt16.toNat_and]
    exact Nat.and_one_is_mod _
  by_cases h : value &&& 1 = 0
  · rw [h] at hbit ⊢
    exact hbit
  · have hne : (value &&& 1).toNat ≠ 0 := fun h0 ↦ h (UInt16.toNat_inj.1 h0)
    rw [bne_iff_ne.2 h, Bool.toNat_true]
    omega

/-- The digits of a packed color. -/
theorem toNat_ofPacked (value : UInt16) :
    (ofPacked value).r.toNat = value.toNat / 2 ^ 11 % 32 ∧
      (ofPacked value).g.toNat = value.toNat / 2 ^ 6 % 32 ∧
      (ofPacked value).b.toNat = value.toNat / 2 ^ 1 % 32 ∧
      (ofPacked value).a.toNat = value.toNat % 2 :=
  ⟨toNat_channel rfl (by omega), toNat_channel rfl (by omega), toNat_channel rfl (by omega),
    toNat_alpha value⟩

/-! ## Packing -/

/-- A channel of five bits at its place. -/
theorem toNat_placed {x : UInt8} {k : UInt16} {n : Nat} (hx : x.toNat < 32) (hk : k.toNat = n)
    (hn : n ≤ 11) : ((x.toUInt16 &&& 0x1F) <<< k).toNat = x.toNat <<< n := by
  have hmask : (0x1F : UInt16).toNat = 2 ^ 5 - 1 := rfl
  have hfit : x.toNat * 2 ^ n ≤ 31 * 2 ^ 11 :=
    Nat.mul_le_mul (by omega) (Nat.pow_le_pow_right (by omega) hn)
  rw [UInt16.toNat_shiftLeft, UInt16.toNat_and, hmask, Nat.and_two_pow_sub_one_eq_mod,
    UInt8.toNat_toUInt16, Nat.mod_eq_of_lt hx, hk, Nat.mod_eq_of_lt (show n < 16 by omega),
    Nat.shiftLeft_eq, Nat.mod_eq_of_lt (by omega)]

/-- A color of five-bit channels as a number. -/
theorem toNat_toPacked {c : Color} (hr : c.r.toNat < 32) (hg : c.g.toNat < 32)
    (hb : c.b.toNat < 32) :
    c.toPacked.toNat =
      c.r.toNat <<< 11 + (c.g.toNat <<< 6 + (c.b.toNat <<< 1 + c.a.toNat)) := by
  have ha : c.a.toUInt16.toNat = c.a.toNat := by cases c.a <;> rfl
  have ha1 : c.a.toNat < 2 ^ 1 := Nat.lt_succ_of_le (Bool.toNat_le c.a)
  have hb6 : c.b.toNat <<< 1 + c.a.toNat < 2 ^ 6 := by
    rw [Nat.shiftLeft_eq]
    omega
  have hg11 : c.g.toNat <<< 6 + (c.b.toNat <<< 1 + c.a.toNat) < 2 ^ 11 := by
    rw [Nat.shiftLeft_eq]
    omega
  rw [toPacked, UInt16.or_assoc, UInt16.or_assoc, UInt16.toNat_or, UInt16.toNat_or,
    UInt16.toNat_or, toNat_placed (n := 11) hr rfl (by omega),
    toNat_placed (n := 6) hg rfl (by omega), toNat_placed (n := 1) hb rfl (by omega), ha,
    ← Nat.shiftLeft_add_eq_or_of_lt ha1, ← Nat.shiftLeft_add_eq_or_of_lt hb6,
    ← Nat.shiftLeft_add_eq_or_of_lt hg11]

/-- **Packing undoes unpacking.** -/
theorem toPacked_ofPacked (value : UInt16) : (ofPacked value).toPacked = value := by
  obtain ⟨hr, hg, hb, ha⟩ := toNat_ofPacked value
  have hlt := value.toNat_lt
  apply UInt16.toNat_inj.1
  rw [toNat_toPacked (by omega) (by omega) (by omega), hr, hg, hb, ha]
  simp only [Nat.shiftLeft_eq]
  omega

/-- Channels of five bits. -/
structure IsFiveBit (c : Color) : Prop where
  r : c.r.toNat < 32
  g : c.g.toNat < 32
  b : c.b.toNat < 32

theorem isFiveBit_ofPacked (value : UInt16) : (ofPacked value).IsFiveBit := by
  obtain ⟨hr, hg, hb, -⟩ := toNat_ofPacked value
  exact ⟨hr ▸ Nat.mod_lt _ (by decide), hg ▸ Nat.mod_lt _ (by decide),
    hb ▸ Nat.mod_lt _ (by decide)⟩

/-- **Unpacking undoes packing** of five-bit channels. -/
theorem ofPacked_toPacked {c : Color} (h : c.IsFiveBit) : ofPacked c.toPacked = c := by
  have hpacked := toNat_toPacked h.r h.g h.b
  have ha1 := Bool.toNat_le c.a
  obtain ⟨hr, hg, hb, ha⟩ := toNat_ofPacked c.toPacked
  obtain ⟨hr', hg', hb'⟩ := h
  simp only [Nat.shiftLeft_eq] at hpacked
  have hr : (ofPacked c.toPacked).r = c.r := UInt8.toNat_inj.1 (by omega)
  have hg : (ofPacked c.toPacked).g = c.g := UInt8.toNat_inj.1 (by omega)
  have hb : (ofPacked c.toPacked).b = c.b := UInt8.toNat_inj.1 (by omega)
  have ha : (ofPacked c.toPacked).a = c.a := by
    have hbit : (ofPacked c.toPacked).a.toNat = c.a.toNat := by omega
    rw [Bool.eq_iff_iff, ← Bool.toNat_eq_one, ← Bool.toNat_eq_one, hbit]
  calc ofPacked c.toPacked
      = ⟨(ofPacked c.toPacked).r, (ofPacked c.toPacked).g, (ofPacked c.toPacked).b,
          (ofPacked c.toPacked).a⟩ := rfl
    _ = ⟨c.r, c.g, c.b, c.a⟩ := by rw [hr, hg, hb, ha]

end Color

end DisplayRaster
