import DisplayRaster.Proofs.Memory.Words

/-!
# Halfwords in memory

Pixels and depth samples are halfwords.  What a halfword reads as depends on its own two bytes only
(`Rdram.read16_congr`), a halfword that was written is read back (`Rdram.halfOr_write16`), and
halfwords at even addresses are either at the same place or have no byte in common
(`Rdram.not_inHalf_of_ne`).  Together they say that memory is an array of halfwords.
-/

set_option autoImplicit false

namespace DisplayRaster

namespace Rdram

variable {m m₁ : Rdram} {a b addr : UInt32}

instance (m : Rdram) (addr : UInt32) (width : Nat) : Decidable (m.Fits addr width) :=
  decidable_of_iff (addr.toNat % width = 0 ∧ physical addr + width ≤ m.bytes.size)
    ⟨fun h ↦ ⟨h.1, h.2⟩, fun h ↦ ⟨h.aligned, h.inside⟩⟩

/-- Whether an access fits is a matter of the size of memory. -/
theorem fits_congr (hsize : m₁.size = m.size) {width : Nat} :
    m₁.Fits addr width ↔ m.Fits addr width := by
  have hs : m₁.bytes.size = m.bytes.size := hsize
  constructor
  · intro h
    exact ⟨h.aligned, by rw [← hs]; exact h.inside⟩
  · intro h
    exact ⟨h.aligned, by rw [hs]; exact h.inside⟩

/-- Memories of one size with the same bytes are the same. -/
theorem ext_byte (hsize : m₁.size = m.size) (h : ∀ i, m₁.byte i = m.byte i) : m₁ = m := by
  obtain ⟨⟨d₁⟩⟩ := m₁
  obtain ⟨⟨d⟩⟩ := m
  have hs : d₁.size = d.size := hsize
  have hd : d₁ = d := by
    refine Array.ext hs fun i hi₁ hi ↦ ?_
    have hi' := h i
    rwa [byte_eq_getD, byte_eq_getD, Array.getElem?_eq_getElem hi₁, Array.getElem?_eq_getElem hi]
      at hi'
  rw [hd]

/-! ## Reading -/

theorem read16_congr (hsize : m₁.size = m.size)
    (h : ∀ i, InHalf addr i → m₁.byte i = m.byte i) :
    Memory.read16 m₁ addr = Memory.read16 m addr := by
  show m₁.read16 addr = m.read16 addr
  by_cases hf : m.Fits addr 2
  · rw [read16_of_fits hf, read16_of_fits ((fits_congr hsize).2 hf), h _ (.inl rfl),
      h _ (.inr rfl)]
  · rw [read16_of_not_fits hf, read16_of_not_fits fun hf₁ ↦ hf ((fits_congr hsize).1 hf₁)]

theorem halfOr_congr (default : UInt16) (hsize : m₁.size = m.size)
    (h : ∀ i, InHalf addr i → m₁.byte i = m.byte i) :
    Memory.halfOr default m₁ addr = Memory.halfOr default m addr := by
  rw [Memory.halfOr, Memory.halfOr, read16_congr hsize h]

theorem byteOrZero_congr (hsize : m₁.size = m.size)
    (h : m₁.byte (physical addr) = m.byte (physical addr)) :
    Memory.byteOrZero m₁ addr = Memory.byteOrZero m addr := by
  have hread : Memory.read8 m₁ addr = Memory.read8 m addr := by
    show m₁.read8 addr = m.read8 addr
    by_cases hf : m.Fits addr 1
    · rw [read8_of_fits hf, read8_of_fits ((fits_congr hsize).2 hf), h]
    · rw [read8, read8, span_of_not_fits hf,
        span_of_not_fits fun hf₁ ↦ hf ((fits_congr hsize).1 hf₁)]
      rfl
  rw [Memory.byteOrZero, Memory.byteOrZero, hread]

/-- Where a halfword can be read, its value is all that there is to read. -/
theorem read16_eq_ok (default : UInt16) (h : m.Fits addr 2) :
    Memory.read16 m addr = .ok (Memory.halfOr default m addr) := by
  have hread : Memory.read16 m addr = .ok _ := read16_of_fits h
  rw [Memory.halfOr, hread]

/-- Memories of one size that have the same value at an address read the same there. -/
theorem read16_eq_of_halfOr_eq {default : UInt16} (hsize : m₁.size = m.size)
    (h : Memory.halfOr default m₁ addr = Memory.halfOr default m addr) :
    Memory.read16 m₁ addr = Memory.read16 m addr := by
  by_cases hf : m.Fits addr 2
  · rw [read16_eq_ok default hf, read16_eq_ok default ((fits_congr hsize).2 hf), h]
  · exact (read16_of_not_fits fun hf₁ ↦ hf ((fits_congr hsize).1 hf₁)).trans
      (read16_of_not_fits hf).symm

/-- The value of a halfword tells its bytes. -/
theorem byte_eq_of_halfOr_eq {default : UInt16} (hsize : m₁.size = m.size) (hf : m.Fits addr 2)
    (h : Memory.halfOr default m₁ addr = Memory.halfOr default m addr) {i : Nat}
    (hi : InHalf addr i) : m₁.byte i = m.byte i := by
  have hread := read16_eq_of_halfOr_eq hsize h
  have hvalue := Except.ok.inj ((read16_of_fits ((fits_congr hsize).2 hf)).symm.trans
    (hread.trans (read16_of_fits hf)))
  have hnat := congrArg UInt16.toNat hvalue
  rw [BigEndian.toNat_halfword, BigEndian.toNat_halfword] at hnat
  have hlow₁ := (m₁.byte (physical addr + 1)).toNat_lt
  have hlow := (m.byte (physical addr + 1)).toNat_lt
  rcases hi with rfl | rfl
  · apply UInt8.toNat_inj.1
    omega
  · apply UInt8.toNat_inj.1
    omega

/-! ## Writing -/

/-- A halfword that has been written is read back. -/
theorem halfOr_write16 (default : UInt16) (h : m.Fits addr 2) (value : UInt16) :
    Memory.halfOr default (Memory.write16 m addr value).memory addr = value := by
  have hf : (m.write16 addr value).memory.Fits addr 2 :=
    (fits_congr (size_write16 m addr value)).2 h
  have hread : Memory.read16 (Memory.write16 m addr value).memory addr = .ok value := by
    refine (read16_of_fits hf).trans ?_
    have hne : physical addr + 1 ≠ physical addr := by omega
    rw [byte_write16 value h, byte_write16 value h, if_pos rfl, if_neg hne, if_pos rfl,
      BigEndian.halfword_highByte]
  rw [Memory.halfOr, hread]

theorem write16_eq_of_fits (h : m.Fits addr 2) (value : UInt16) :
    Memory.write16 m addr value = ⟨(Memory.write16 m addr value).memory, none⟩ := by
  show m.write16 addr value = ⟨(m.write16 addr value).memory, none⟩
  rw [write16_of_fits value h]

theorem write16_eq_of_not_fits (h : ¬ m.Fits addr 2) (value : UInt16) :
    Memory.write16 m addr value = ⟨m, some (faultOf addr 2)⟩ :=
  write16_of_not_fits value h

/-! ## Places -/

theorem physical_even (ha : a.toNat % 2 = 0) : physical a % 2 = 0 := by
  rw [physical_eq_mod]
  omega

/-- Halfwords at different places have no byte in common. -/
theorem not_inHalf_of_ne (ha : a.toNat % 2 = 0) (hb : b.toNat % 2 = 0)
    (hne : physical a ≠ physical b) {i : Nat} (hi : InHalf a i) : ¬ InHalf b i := by
  have ha := physical_even ha
  have hb := physical_even hb
  rintro (hib | hib)
  · rcases hi with hi | hi <;> omega
  · rcases hi with hi | hi <;> omega

end Rdram

end DisplayRaster
