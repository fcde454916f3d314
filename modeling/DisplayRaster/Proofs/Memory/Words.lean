import DisplayRaster.Proofs.Memory.Fields
import DisplayRaster.Proofs.Memory.Frame

/-!
# Words in memory

`Memory.Holds m addr ws` says that the words `ws` can be read one after another from `addr` on.
Words that have been written without a fault are held (`Rdram.holds_writeWords`), and they stay held
for as long as their bytes stay what they are (`Rdram.holds_congr`).

Addresses wrap around at 32 bits and are cut to 29.  In a memory of fewer than `2 ^ 29` bytes a run
of words that fits never meets either end, so that places in it are sums of numbers
(`Rdram.physical_add`).
-/

set_option autoImplicit false

namespace DisplayRaster

/-! ## Words as bytes -/

namespace BigEndian

theorem toNat_halfword (high low : UInt8) :
    (halfword high low).toNat = high.toNat * 256 + low.toNat := by
  have hh := high.toNat_lt
  have hl := low.toNat_lt
  simp only [halfword, UInt16.toNat_or, UInt16.toNat_shiftLeft, UInt8.toNat_toUInt16,
    UInt16.reduceToNat, Nat.reduceMod]
  rw [Nat.mod_eq_of_lt (by rw [Nat.shiftLeft_eq]; omega), ← Nat.shiftLeft_add_eq_or_of_lt hl,
    Nat.shiftLeft_eq]

theorem toNat_word (high low : UInt16) :
    (word high low).toNat = high.toNat * 65536 + low.toNat := by
  have hh := high.toNat_lt
  have hl := low.toNat_lt
  exact Field.toNat_shiftLeft_or (n := 16) rfl (by omega) (by rw [UInt16.toNat_toUInt32]; omega) hl

theorem toNat_highByte (v : UInt16) : (highByte v).toNat = v.toNat / 256 := by
  have hv := v.toNat_lt
  simp only [highByte, UInt16.toNat_toUInt8, UInt16.toNat_shiftRight, UInt16.reduceToNat,
    Nat.reduceMod, Nat.shiftRight_eq_div_pow]
  omega

theorem toNat_highHalf (v : UInt32) : (highHalf v).toNat = v.toNat / 65536 := by
  have hv := v.toNat_lt
  rw [highHalf, UInt32.toNat_toUInt16, Field.toNat_shiftRight (n := 16) rfl (by omega)]
  omega

/-- The bytes of a halfword make the halfword. -/
theorem halfword_highByte (v : UInt16) : halfword (highByte v) v.toUInt8 = v := by
  apply UInt16.toNat_inj.1
  rw [toNat_halfword, toNat_highByte, UInt16.toNat_toUInt8]
  omega

/-- The halves of a word make the word. -/
theorem word_highHalf (v : UInt32) : word (highHalf v) v.toUInt16 = v := by
  apply UInt32.toNat_inj.1
  rw [toNat_word, toNat_highHalf, UInt32.toNat_toUInt16]
  omega

end BigEndian

/-! ## Runs of words -/

namespace Memory

variable {μ : Type} [Memory μ]

/-- The words can be read one after another from an address on. -/
def Holds (m : μ) (addr : UInt32) : List UInt32 → Prop
  | [] => True
  | w :: ws => read32 m addr = .ok w ∧ Holds m (addr + 4) ws

instance decidableHolds (m : μ) :
    (addr : UInt32) → (ws : List UInt32) → Decidable (Holds m addr ws)
  | _, [] => isTrue trivial
  | _, _ :: _ => @instDecidableAnd _ _ _ (decidableHolds m _ _)

theorem four_mul_succ (addr : UInt32) (n : Nat) :
    addr + 4 + 4 * UInt32.ofNat n = addr + 4 * UInt32.ofNat (n + 1) := by
  rw [UInt32.ofNat_add, UInt32.mul_add, UInt32.add_comm (4 * _), ← UInt32.add_assoc]
  rfl

theorem holds_append {m : μ} {addr : UInt32} {ws vs : List UInt32} :
    Holds m addr (ws ++ vs) ↔
      Holds m addr ws ∧ Holds m (addr + 4 * UInt32.ofNat ws.length) vs := by
  induction ws generalizing addr with
  | nil => simp [Holds]
  | cons w ws ih =>
    rw [List.cons_append, Holds, Holds, ih, List.length_cons, four_mul_succ, and_assoc]

end Memory

namespace Rdram

open Memory (Holds four_mul_succ writeWords)

/-! ## Places -/

theorem physical_eq_mod (addr : UInt32) : physical addr = addr.toNat % 2 ^ 29 := by
  rw [physical, UInt32.toNat_and]
  exact Nat.and_two_pow_sub_one_eq_mod addr.toNat 29

/-- Nothing wraps around below `2 ^ 29`. -/
theorem physical_add {addr : UInt32} {n : Nat} (h : physical addr + n < 2 ^ 29) :
    physical (addr + UInt32.ofNat n) = physical addr + n := by
  rw [physical_eq_mod] at h ⊢
  rw [physical_eq_mod, UInt32.toNat_add, UInt32.toNat_ofNat']
  omega

theorem physical_add_words {addr : UInt32} {n : Nat} (h : physical addr + 4 * n < 2 ^ 29) :
    physical (addr + 4 * UInt32.ofNat n) = physical addr + 4 * n := by
  rw [← physical_add h, UInt32.ofNat_mul]
  rfl

/-- The bytes of a run of `count` words. -/
def InWords (addr : UInt32) (count i : Nat) : Prop :=
  physical addr ≤ i ∧ i < physical addr + 4 * count

/-- The end of a run is part of the run. -/
theorem InWords.of_tail {addr : UInt32} {n k i : Nat} (hin : physical addr + 4 * (n + k) < 2 ^ 29)
    (hi : InWords (addr + 4 * UInt32.ofNat n) k i) : InWords addr (n + k) i := by
  obtain ⟨hi₁, hi₂⟩ := hi
  rw [physical_add_words (by omega)] at hi₁ hi₂
  exact ⟨by omega, by omega⟩

/-! ## Reading back -/

variable {m m₁ m' : Rdram} {addr : UInt32}

theorem read32_congr (hsize : m₁.size = m.size)
    (h : ∀ i, InWords addr 1 i → m₁.byte i = m.byte i) : m₁.read32 addr = m.read32 addr := by
  have hs : m₁.bytes.size = m.bytes.size := hsize
  by_cases hf : m.Fits addr 4
  · have hf₁ : m₁.Fits addr 4 := ⟨hf.aligned, by rw [hs]; exact hf.inside⟩
    rw [read32_of_fits hf, read32_of_fits hf₁, h _ ⟨by omega, by omega⟩,
      h _ ⟨by omega, by omega⟩, h _ ⟨by omega, by omega⟩, h _ ⟨by omega, by omega⟩]
  · have hf₁ : ¬ m₁.Fits addr 4 := fun hf' ↦ hf ⟨hf'.aligned, by rw [← hs]; exact hf'.inside⟩
    rw [read32_of_not_fits hf, read32_of_not_fits hf₁]

/-- A word that has been written is read back. -/
theorem read32_write32 (h : m.Fits addr 4) (value : UInt32) :
    (m.write32 addr value).memory.read32 addr = .ok value := by
  have hsize := size_write32 m addr value
  have hf : (m.write32 addr value).memory.Fits addr 4 :=
    ⟨h.aligned, Nat.le_trans h.inside (Nat.le_of_eq hsize.symm)⟩
  have h₁ : physical addr + 1 ≠ physical addr := by omega
  have h₂ : physical addr + 2 ≠ physical addr ∧ physical addr + 2 ≠ physical addr + 1 := by omega
  have h₃ : physical addr + 3 ≠ physical addr ∧ physical addr + 3 ≠ physical addr + 1 ∧
      physical addr + 3 ≠ physical addr + 2 := by omega
  rw [read32_of_fits hf]
  simp only [byte_write32 value h, h₁, h₂, h₃, if_true, if_false]
  rw [BigEndian.halfword_highByte, BigEndian.halfword_highByte, BigEndian.word_highHalf]

/-- A run of words depends on the bytes of the run only. -/
theorem holds_congr {ws : List UInt32} (hin : physical addr + 4 * ws.length < 2 ^ 29)
    (hsize : m₁.size = m.size)
    (h : ∀ i, InWords addr ws.length i → m₁.byte i = m.byte i) (hm : Holds m addr ws) :
    Holds m₁ addr ws := by
  induction ws generalizing addr with
  | nil => trivial
  | cons w ws ih =>
    rw [List.length_cons] at hin h
    have hnext : physical (addr + 4) = physical addr + 4 := physical_add (n := 4) (by omega)
    refine ⟨?_, ih (by omega) (fun i hi ↦ h i ?_) hm.2⟩
    · exact (read32_congr hsize fun i hi ↦ h i ⟨hi.1, by have := hi.2; omega⟩).trans hm.1
    · obtain ⟨hi₁, hi₂⟩ := hi
      exact ⟨by omega, by omega⟩

/-- The end of a run is held for as long as the bytes of the run stay. -/
theorem holds_tail {ws vs : List UInt32}
    (hin : physical addr + 4 * (ws.length + vs.length) < 2 ^ 29)
    (hsize : m₁.size = m.size)
    (h : ∀ i, InWords addr (ws.length + vs.length) i → m₁.byte i = m.byte i)
    (hm : Holds m addr (ws ++ vs)) : Holds m₁ (addr + 4 * UInt32.ofNat ws.length) vs := by
  refine holds_congr ?_ hsize (fun i hi ↦ h i (hi.of_tail hin)) (Memory.holds_append.1 hm).2
  rw [physical_add_words (by omega)]
  omega

/-! ## Writing -/

/-- The first of the words that were written, and the rest. -/
theorem writeWords_cons {w : UInt32} {ws : List UInt32}
    (h : writeWords m addr (w :: ws) = ⟨m', none⟩) :
    m.Fits addr 4 ∧ writeWords (m.write32 addr w).memory (addr + 4) ws = ⟨m', none⟩ := by
  change (m.write32 addr w).andThen _ = _ at h
  by_cases hf : m.Fits addr 4
  · rw [write32_of_fits w hf] at h ⊢
    exact ⟨hf, h⟩
  · rw [write32_of_not_fits w hf, Written.andThen_some] at h
    cases h

/-- Words that were written all lie in memory. -/
theorem inside_of_writeWords (hsize : m.size < 2 ^ 29) {ws : List UInt32} (hws : ws ≠ [])
    (h : writeWords m addr ws = ⟨m', none⟩) : physical addr + 4 * ws.length ≤ m.size := by
  induction ws generalizing m addr with
  | nil => exact absurd rfl hws
  | cons w ws ih =>
    obtain ⟨hf, hrest⟩ := writeWords_cons h
    have hin : physical addr + 4 ≤ m.size := hf.inside
    rw [List.length_cons]
    by_cases hnil : ws = []
    · subst hnil
      exact hin
    · have hsize₁ := size_write32 m addr w
      have hnext : physical (addr + 4) = physical addr + 4 := physical_add (n := 4) (by omega)
      have hrest := ih (by omega) hnil hrest
      omega

/-- Writing a run of words changes no byte outside the run. -/
theorem frame_writeWords {ws : List UInt32} (hin : physical addr + 4 * ws.length < 2 ^ 29)
    (h : writeWords m addr ws = ⟨m', none⟩) : Frame (InWords addr ws.length) m m' := by
  induction ws generalizing m addr with
  | nil => cases h; exact Frame.refl _ _
  | cons w ws ih =>
    rw [List.length_cons] at hin ⊢
    have hnext : physical (addr + 4) = physical addr + 4 := physical_add (n := 4) (by omega)
    obtain ⟨hf, hrest⟩ := writeWords_cons h
    refine Frame.trans ⟨size_write32 m addr w, fun i hi ↦ ?_⟩
      ((ih (by omega) hrest).mono fun i hi ↦ ?_)
    · have hi : ¬ (physical addr ≤ i ∧ i < physical addr + 4 * (ws.length + 1)) := hi
      have hw := byte_write32 w hf i
      rwa [if_neg (by omega), if_neg (by omega), if_neg (by omega), if_neg (by omega)] at hw
    · obtain ⟨hi₁, hi₂⟩ := hi
      exact ⟨by omega, by omega⟩

/-- Writing a run of words does not change a word apart from it. -/
theorem read32_writeWords {a : UInt32} {ws : List UInt32} (haligned : a.toNat % 4 = 0)
    (hne : ∀ k < ws.length, physical (addr + 4 * UInt32.ofNat k) ≠ physical a)
    (h : writeWords m addr ws = ⟨m', none⟩) : m'.read32 a = m.read32 a := by
  induction ws generalizing m addr with
  | nil =>
    cases h
    rfl
  | cons w ws ih =>
    obtain ⟨hf, hrest⟩ := writeWords_cons h
    have hfirst : physical addr ≠ physical a := by simpa using hne 0 (by simp)
    refine (ih (fun k hk ↦ ?_) hrest).trans ?_
    · rw [four_mul_succ]
      exact hne (k + 1) (by simpa using hk)
    · refine read32_congr (size_write32 m addr w) fun i hi ↦ ?_
      obtain ⟨hi₁, hi₂⟩ := hi
      have haddr : physical addr % 4 = 0 := by
        have := hf.aligned
        rw [physical_eq_mod]
        omega
      have ha : physical a % 4 = 0 := by
        rw [physical_eq_mod]
        omega
      rw [byte_write32 w hf, if_neg (by omega), if_neg (by omega), if_neg (by omega),
        if_neg (by omega)]

/-- **Words that were written can be read back**, unless there are so many of them that the last
ones are written over the first ones. -/
theorem holds_writeWords {ws : List UInt32} (hroom : 4 * ws.length ≤ 2 ^ 29)
    (h : writeWords m addr ws = ⟨m', none⟩) : Holds m' addr ws := by
  induction ws generalizing m addr with
  | nil => trivial
  | cons w ws ih =>
    rw [List.length_cons] at hroom
    obtain ⟨hf, hrest⟩ := writeWords_cons h
    refine ⟨?_, ih (by omega) hrest⟩
    refine (read32_writeWords hf.aligned (fun k hk ↦ ?_) hrest).trans (read32_write32 hf w)
    rw [four_mul_succ, physical_eq_mod, physical_eq_mod, UInt32.toNat_add, UInt32.toNat_mul,
      UInt32.toNat_ofNat', show (4 : UInt32).toNat = 4 from rfl]
    omega

end Rdram

end DisplayRaster
