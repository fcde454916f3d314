import DisplayRaster.DisplayList.VertexRecord
import DisplayRaster.Proofs.Memory.Words
import Mathlib.Algebra.Ring.Int.Defs

/-!
# Reading vertex records back

A record of a position gives the position back if its coordinates are sixteen-bit ones
(`VertexLayout.read_plain`).
-/

set_option autoImplicit false

namespace DisplayRaster

/-! ## Runs of bytes -/

namespace Memory

variable {μ : Type} [Memory μ]

/-- The bytes can be read one after another from an address on. -/
def HoldsBytes (m : μ) (addr : UInt32) : List UInt8 → Prop
  | [] => True
  | b :: bs => read8 m addr = .ok b ∧ HoldsBytes m (addr + 1) bs

instance decidableHoldsBytes (m : μ) :
    (addr : UInt32) → (bs : List UInt8) → Decidable (HoldsBytes m addr bs)
  | _, [] => isTrue trivial
  | _, _ :: _ => @instDecidableAnd _ _ _ (decidableHoldsBytes m _ _)

/-- A run of bytes is held iff each of them can be read at its place. -/
theorem holdsBytes_iff {m : μ} {addr : UInt32} {bs : List UInt8} :
    HoldsBytes m addr bs ↔
      ∀ (i : Nat) (h : i < bs.length), read8 m (addr + UInt32.ofNat i) = .ok bs[i] := by
  induction bs generalizing addr with
  | nil => simp [HoldsBytes]
  | cons b bs ih =>
    have hnext (i : Nat) : addr + 1 + UInt32.ofNat i = addr + UInt32.ofNat (i + 1) := by
      rw [Nat.add_comm, UInt32.ofNat_add, ← UInt32.add_assoc]
      rfl
    have hfirst : addr + UInt32.ofNat 0 = addr := UInt32.add_zero addr
    rw [HoldsBytes, ih]
    simp only [hnext]
    constructor
    · rintro ⟨hb, hbs⟩ i hi
      cases i with
      | zero => rwa [hfirst]
      | succ i => exact hbs i (Nat.lt_of_succ_lt_succ hi)
    · intro h
      exact ⟨hfirst ▸ h 0 (Nat.succ_pos _), fun i hi ↦ h (i + 1) (Nat.succ_lt_succ hi)⟩

theorem HoldsBytes.append {m : μ} {addr : UInt32} {as bs : List UInt8}
    (h : HoldsBytes m addr (as ++ bs)) :
    HoldsBytes m addr as ∧ HoldsBytes m (addr + UInt32.ofNat as.length) bs := by
  induction as generalizing addr with
  | nil => exact ⟨trivial, by simpa using h⟩
  | cons a as ih =>
    rcases h with ⟨ha, hrest⟩
    rcases ih hrest with ⟨has, hbs⟩
    refine ⟨⟨ha, has⟩, ?_⟩
    rwa [List.length_cons, Nat.add_comm, UInt32.ofNat_add, ← UInt32.add_assoc]

end Memory

namespace Rdram

variable {m : Rdram} {addr : UInt32}

theorem read8_eq_ok {b : UInt8} (h : m.read8 addr = .ok b) :
    physical addr < m.size ∧ m.byte (physical addr) = b := by
  by_cases hf : m.Fits addr 1
  · rw [read8_of_fits hf] at h
    exact ⟨hf.inside, Except.ok.inj h⟩
  · rw [read8, span_of_not_fits hf] at h
    cases h

/-- An even address and the next one are next to each other. -/
theorem physical_succ (heven : addr.toNat % 2 = 0) : physical (addr + 1) = physical addr + 1 := by
  refine physical_add (n := 1) ?_
  rw [physical_eq_mod]
  omega

/-- Two bytes at an even address are a halfword. -/
theorem read16_of_holdsBytes {value : UInt16} (heven : addr.toNat % 2 = 0)
    (h : Memory.HoldsBytes m addr (VertexLayout.halfBytes value)) :
    Memory.read16 m addr = .ok value := by
  rcases h with ⟨hhigh, hlow, -⟩
  rcases read8_eq_ok hhigh with ⟨-, hhigh⟩
  rcases read8_eq_ok hlow with ⟨hin, hlow⟩
  rw [physical_succ heven] at hin hlow
  refine (read16_of_fits ⟨heven, hin⟩).trans (congrArg Except.ok ?_)
  rw [hhigh, hlow]
  exact BigEndian.halfword_highByte value

end Rdram

/-! ## Coordinates -/

/-- A coordinate that a record can hold. -/
def IsHalf (coord : Int32) : Prop := -2 ^ 15 ≤ coord.toInt ∧ coord.toInt < 2 ^ 15

instance (coord : Int32) : Decidable (IsHalf coord) := inferInstanceAs (Decidable (_ ∧ _))

namespace VertexLayout

theorem signedHalf_toUInt16 {coord : Int32} (h : IsHalf coord) :
    signedHalf coord.toUInt32.toUInt16 = coord := by
  obtain ⟨h₁, h₂⟩ := h
  apply Int32.toInt_inj.1
  show (BitVec.signExtend 32 (BitVec.setWidth 16 coord.toBitVec)).toInt = coord.toInt
  have hcoord : coord.toInt = Int.bmod coord.toBitVec.toNat (2 ^ 32) :=
    BitVec.toInt_eq_toNat_bmod coord.toBitVec
  have hlt := coord.toBitVec.isLt
  rw [BitVec.toInt_signExtend_of_le (by omega), BitVec.toInt_setWidth]
  rw [hcoord] at h₁ h₂ ⊢
  simp only [Int.bmod] at h₁ h₂ ⊢
  omega

/-- **The record of a position is read back as the position.** -/
theorem read_plain {m : Rdram} {addr : UInt32} {v : Vertex} (heven : addr.toNat % 2 = 0)
    (h : Memory.HoldsBytes m addr (plain.record v)) (hx : IsHalf v.x) (hy : IsHalf v.y) :
    plain.read m addr = .ok (.position v.x v.y) := by
  rcases h.append with ⟨hbytesx, hbytesy⟩
  have heven' : (addr + 2).toNat % 2 = 0 := by
    rw [UInt32.toNat_add]
    have h2 : (2 : UInt32).toNat = 2 := rfl
    omega
  have hreadx : Memory.read16 m addr = .ok v.x.toUInt32.toUInt16 :=
    Rdram.read16_of_holdsBytes heven hbytesx
  have hready : Memory.read16 m (addr + 2) = .ok v.y.toUInt32.toUInt16 :=
    Rdram.read16_of_holdsBytes heven' hbytesy
  have hzero : addr + 0 = addr := UInt32.add_zero addr
  simp only [read, hzero, hreadx, hready]
  show Except.ok (Vertex.position (signedHalf v.x.toUInt32.toUInt16)
    (signedHalf v.y.toUInt32.toUInt16)) = _
  rw [signedHalf_toUInt16 hx, signedHalf_toUInt16 hy]

end VertexLayout

end DisplayRaster
