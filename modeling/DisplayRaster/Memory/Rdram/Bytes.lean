import DisplayRaster.Memory.Rdram.Basic

/-!
# The bytes of flat memory

`Rdram.byte` views a memory as one byte for each physical address, and every operation is described
by what it does to this view.  An access that lies in memory and is aligned (`Rdram.Fits`) reads or
replaces exactly its own bytes, the most significant one first; any other access fails and changes
nothing.
-/

set_option autoImplicit false

namespace DisplayRaster

namespace Rdram

/-- The byte at a physical address; zero past the end. -/
def byte (m : Rdram) (i : Nat) : UInt8 := if h : i < m.bytes.size then m.bytes[i] else 0

theorem getElem_bytes {m : Rdram} {i : Nat} (h : i < m.bytes.size) : m.bytes[i] = m.byte i := by
  rw [byte, dif_pos h]

/-! ## Replacing bytes -/

@[simp]
theorem size_put (m : Rdram) (i : Nat) (value : UInt8) : (m.put i value).size = m.size := by
  simp only [put, size, ByteArray.size, ByteArray.set!, Array.set!_eq_setIfInBounds,
    Array.size_setIfInBounds]

theorem byte_eq_getD (m : Rdram) (i : Nat) : m.byte i = m.bytes.data[i]?.getD 0 := by
  rw [byte]
  split
  · next h => rw [Array.getElem?_eq_getElem h]; rfl
  · next h => rw [Array.getElem?_eq_none (Nat.le_of_not_lt h)]; rfl

theorem byte_put (m : Rdram) (i : Nat) (value : UInt8) (j : Nat) :
    (m.put i value).byte j = if i = j ∧ i < m.size then value else m.byte j := by
  have hm : m.size = m.bytes.data.size := rfl
  rw [byte_eq_getD, byte_eq_getD]
  simp only [put, ByteArray.set!, Array.set!_eq_setIfInBounds, Array.getElem?_setIfInBounds]
  by_cases hij : i = j
  · subst hij
    by_cases hi : i < m.size
    · rw [if_pos rfl, if_pos (hm ▸ hi), if_pos ⟨rfl, hi⟩]
      rfl
    · rw [if_pos rfl, if_neg (hm ▸ hi), if_neg fun h ↦ hi h.2,
        Array.getElem?_eq_none (Nat.le_of_not_lt (hm ▸ hi))]
  · rw [if_neg hij, if_neg fun h ↦ hij h.1]

theorem size_overlay {m : Rdram} {start : Nat} {data : ByteArray}
    (h : start + data.size ≤ m.size) : (m.overlay start data).size = m.size := by
  show (data.copySlice 0 m.bytes start data.size).data.size = m.bytes.data.size
  have hm : m.size = m.bytes.data.size := rfl
  have hd : data.size = data.data.size := rfl
  simp only [ByteArray.copySlice, Array.size_append, Array.size_extract]
  omega

theorem byte_overlay {m : Rdram} {start : Nat} {data : ByteArray}
    (h : start + data.size ≤ m.size) (j : Nat) :
    (m.overlay start data).byte j =
      if start ≤ j ∧ j < start + data.size then data.get! (j - start) else m.byte j := by
  have hm : m.size = m.bytes.data.size := rfl
  have hd : data.size = data.data.size := rfl
  have hget : data.get! (j - start) = data.data[j - start]?.getD 0 := by
    rw [← Array.getD_eq_getD_getElem?]
    rfl
  have hmin : min start m.bytes.data.size = start := Nat.min_eq_left (by omega)
  rw [byte_eq_getD, byte_eq_getD, hget]
  simp only [overlay, ByteArray.copySlice, Array.getElem?_append, Array.size_append,
    Array.size_extract, Array.getElem?_extract, hmin, Nat.sub_zero, Nat.zero_add, ← hd,
    Nat.min_self]
  by_cases hlow : j < start
  · rw [if_pos (by omega), if_pos hlow, if_pos hlow, if_neg (by omega)]
  · by_cases hhigh : j < start + data.size
    · rw [if_pos hhigh, if_neg hlow, if_pos (by omega), if_pos (by omega)]
    · have hj : start + data.size + (j - (start + data.size)) = j := by omega
      have hout : ¬ (start ≤ j ∧ j < start + data.size) := fun h ↦ hhigh h.2
      rw [if_neg hhigh, hj, if_neg hout]
      split
      · rfl
      · rw [Array.getElem?_eq_none (by omega)]

/-! ## Accesses -/

/-- An aligned access to bytes that all lie in memory. -/
structure Fits (m : Rdram) (addr : UInt32) (width : Nat) : Prop where
  aligned : addr.toNat % width = 0
  inside : physical addr + width ≤ m.bytes.size

theorem span_of_fits {m : Rdram} {addr : UInt32} {width : Nat} (h : m.Fits addr width) :
    m.span addr width = .ok ⟨physical addr, h.inside⟩ := by
  rw [span, if_neg (not_not_intro h.aligned), dif_pos h.inside]

/-- The fault of an access that does not fit. -/
def faultOf (addr : UInt32) (width : Nat) : MemoryFault :=
  if addr.toNat % width ≠ 0 then .unaligned addr width else .invalid addr

theorem span_of_not_fits {m : Rdram} {addr : UInt32} {width : Nat} (h : ¬ m.Fits addr width) :
    m.span addr width = .error (faultOf addr width) := by
  rw [span, faultOf]
  split
  · rfl
  · next ha =>
    rw [dif_neg]
    intro hb
    exact h ⟨Decidable.not_not.1 ha, hb⟩

theorem read8_of_fits {m : Rdram} {addr : UInt32} (h : m.Fits addr 1) :
    m.read8 addr = .ok (m.byte (physical addr)) := by
  rw [read8, span_of_fits h]
  exact congrArg Except.ok (getElem_bytes _)

theorem read16_of_fits {m : Rdram} {addr : UInt32} (h : m.Fits addr 2) :
    m.read16 addr = .ok (halfword (m.byte (physical addr)) (m.byte (physical addr + 1))) := by
  rw [read16, span_of_fits h, ← getElem_bytes, ← getElem_bytes]
  rfl

theorem read32_of_fits {m : Rdram} {addr : UInt32} (h : m.Fits addr 4) :
    m.read32 addr = .ok (BigEndian.word
      (halfword (m.byte (physical addr)) (m.byte (physical addr + 1)))
      (halfword (m.byte (physical addr + 2)) (m.byte (physical addr + 3)))) := by
  rw [read32, span_of_fits h, ← getElem_bytes, ← getElem_bytes, ← getElem_bytes, ← getElem_bytes]
  rfl

theorem read8_of_not_fits {m : Rdram} {addr : UInt32} (h : ¬ m.Fits addr 1) :
    m.read8 addr = .error (faultOf addr 1) := by
  rw [read8, span_of_not_fits h]
  rfl

theorem read16_of_not_fits {m : Rdram} {addr : UInt32} (h : ¬ m.Fits addr 2) :
    m.read16 addr = .error (faultOf addr 2) := by
  rw [read16, span_of_not_fits h]
  rfl

theorem read32_of_not_fits {m : Rdram} {addr : UInt32} (h : ¬ m.Fits addr 4) :
    m.read32 addr = .error (faultOf addr 4) := by
  rw [read32, span_of_not_fits h]
  rfl

theorem write8_of_fits {m : Rdram} {addr : UInt32} (value : UInt8) (h : m.Fits addr 1) :
    m.write8 addr value = ⟨m.put (physical addr) value, none⟩ := by
  rw [write8, span_of_fits h]

theorem write8_of_not_fits {m : Rdram} {addr : UInt32} (value : UInt8) (h : ¬ m.Fits addr 1) :
    m.write8 addr value = ⟨m, some (faultOf addr 1)⟩ := by
  rw [write8, span_of_not_fits h]

theorem write16_of_fits {m : Rdram} {addr : UInt32} (value : UInt16) (h : m.Fits addr 2) :
    m.write16 addr value =
      ⟨(m.put (physical addr) (BigEndian.highByte value)).put (physical addr + 1) value.toUInt8,
        none⟩ := by
  rw [write16, span_of_fits h]

theorem write16_of_not_fits {m : Rdram} {addr : UInt32} (value : UInt16) (h : ¬ m.Fits addr 2) :
    m.write16 addr value = ⟨m, some (faultOf addr 2)⟩ := by
  rw [write16, span_of_not_fits h]

/-- A halfword write changes the two bytes at its address and no other. -/
theorem byte_write16 {m : Rdram} {addr : UInt32} (value : UInt16) (h : m.Fits addr 2) (j : Nat) :
    (m.write16 addr value).memory.byte j =
      if j = physical addr then BigEndian.highByte value
      else if j = physical addr + 1 then value.toUInt8
      else m.byte j := by
  have hb : physical addr + 2 ≤ m.size := h.inside
  rw [write16_of_fits value h]
  simp only [byte_put, size_put]
  split
  · next h1 => rw [if_neg (by omega), if_pos h1.1.symm]
  · next h1 =>
    split
    · next h2 => rw [if_pos h2.1.symm]
    · next h2 => rw [if_neg (by omega), if_neg (by omega)]

theorem write32_of_fits {m : Rdram} {addr : UInt32} (value : UInt32) (h : m.Fits addr 4) :
    m.write32 addr value =
      ⟨(((m.put (physical addr) (BigEndian.highByte (BigEndian.highHalf value))).put
        (physical addr + 1) (BigEndian.highHalf value).toUInt8).put
        (physical addr + 2) (BigEndian.highByte value.toUInt16)).put
        (physical addr + 3) value.toUInt16.toUInt8, none⟩ := by
  rw [write32, span_of_fits h]

theorem write32_of_not_fits {m : Rdram} {addr : UInt32} (value : UInt32) (h : ¬ m.Fits addr 4) :
    m.write32 addr value = ⟨m, some (faultOf addr 4)⟩ := by
  rw [write32, span_of_not_fits h]

/-- A word write changes the four bytes at its address and no other. -/
theorem byte_write32 {m : Rdram} {addr : UInt32} (value : UInt32) (h : m.Fits addr 4) (j : Nat) :
    (m.write32 addr value).memory.byte j =
      if j = physical addr then BigEndian.highByte (BigEndian.highHalf value)
      else if j = physical addr + 1 then (BigEndian.highHalf value).toUInt8
      else if j = physical addr + 2 then BigEndian.highByte value.toUInt16
      else if j = physical addr + 3 then value.toUInt16.toUInt8
      else m.byte j := by
  have hb : physical addr + 4 ≤ m.size := h.inside
  rw [write32_of_fits value h]
  simp only [byte_put, size_put]
  grind

theorem size_write16 (m : Rdram) (addr : UInt32) (value : UInt16) :
    (m.write16 addr value).memory.size = m.size := by
  by_cases h : m.Fits addr 2
  · rw [write16_of_fits value h]; simp
  · rw [write16_of_not_fits value h]

theorem size_write32 (m : Rdram) (addr : UInt32) (value : UInt32) :
    (m.write32 addr value).memory.size = m.size := by
  by_cases h : m.Fits addr 4
  · rw [write32_of_fits value h]; simp
  · rw [write32_of_not_fits value h]

theorem load_of_inside {m : Rdram} {addr : UInt32} {data : ByteArray} (h : m.Fits addr 1)
    (hdata : physical addr + data.size ≤ m.size) :
    m.load addr data = ⟨m.overlay (physical addr) data, none⟩ := by
  rw [load, span_of_fits h]
  exact if_pos hdata

theorem load_of_not_inside {m : Rdram} {addr : UInt32} {data : ByteArray}
    (h : ¬ (m.Fits addr 1 ∧ physical addr + data.size ≤ m.size)) :
    ∃ fault, m.load addr data = ⟨m, some fault⟩ := by
  by_cases hf : m.Fits addr 1
  · rw [load, span_of_fits hf]
    exact ⟨_, if_neg fun hdata ↦ h ⟨hf, hdata⟩⟩
  · rw [load, span_of_not_fits hf]
    exact ⟨_, rfl⟩

end Rdram

end DisplayRaster
