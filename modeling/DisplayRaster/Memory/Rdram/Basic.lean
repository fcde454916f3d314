import DisplayRaster.Memory.Basic

/-!
# Flat memory with mirrors

`Rdram` is one run of bytes from physical address zero.  The top three bits of an address select a
mirror and are dropped (`Rdram.physical`).  Halfwords and words must be aligned, and an access
either covers bytes of the memory only or fails without effect: `Rdram.span` decides which, and
gives the index of the first byte together with the bound that makes every index of the access
valid.
-/

set_option autoImplicit false

namespace DisplayRaster

/-- Flat memory. -/
structure Rdram where
  bytes : ByteArray

namespace Rdram

/-- The size of a standard memory: four megabytes. -/
def standardSize : Nat := 4 * 1024 * 1024

/-- Memory of `size` zero bytes. -/
def zeroed (size : Nat) : Rdram := ⟨⟨Array.replicate size 0⟩⟩

/-- The number of bytes. -/
def size (m : Rdram) : Nat := m.bytes.size

@[simp]
theorem size_zeroed (n : Nat) : (zeroed n).size = n := by
  simp [zeroed, size, ByteArray.size]

/-- The memory with every byte zero. -/
def reset (m : Rdram) : Rdram := zeroed m.size

/-- The physical address behind an address. -/
def physical (addr : UInt32) : Nat := (addr &&& 0x1FFFFFFF).toNat

/-- The index of the first of `width` bytes at an address, with the bound that they all lie in
memory. -/
@[inline]
def span (m : Rdram) (addr : UInt32) (width : Nat) :
    Except MemoryFault { i : Nat // i + width ≤ m.bytes.size } :=
  if addr.toNat % width ≠ 0 then .error (.unaligned addr width)
  else if h : physical addr + width ≤ m.bytes.size then .ok ⟨physical addr, h⟩
  else .error (.invalid addr)

/-- The byte at an address. -/
def read8 (m : Rdram) (addr : UInt32) : Except MemoryFault UInt8 := do
  let ⟨i, _⟩ ← m.span addr 1
  return m.bytes[i]

/-- The halfword at an address. -/
def read16 (m : Rdram) (addr : UInt32) : Except MemoryFault UInt16 := do
  let ⟨i, _⟩ ← m.span addr 2
  return halfword m.bytes[i] m.bytes[i + 1]

/-- The word at an address. -/
def read32 (m : Rdram) (addr : UInt32) : Except MemoryFault UInt32 := do
  let ⟨i, _⟩ ← m.span addr 4
  return BigEndian.word (halfword m.bytes[i] m.bytes[i + 1])
    (halfword m.bytes[i + 2] m.bytes[i + 3])

/-- The memory with one byte replaced; an index past the end changes nothing. -/
@[inline]
def put (m : Rdram) (i : Nat) (value : UInt8) : Rdram := ⟨m.bytes.set! i value⟩

/-- Write the byte at an address. -/
def write8 (m : Rdram) (addr : UInt32) (value : UInt8) : Written Rdram :=
  match m.span addr 1 with
  | .ok ⟨i, _⟩ => ⟨m.put i value, none⟩
  | .error fault => ⟨m, some fault⟩

/-- Write the halfword at an address. -/
def write16 (m : Rdram) (addr : UInt32) (value : UInt16) : Written Rdram :=
  match m.span addr 2 with
  | .ok ⟨i, _⟩ => ⟨(m.put i (BigEndian.highByte value)).put (i + 1) value.toUInt8, none⟩
  | .error fault => ⟨m, some fault⟩

/-- Write the word at an address. -/
def write32 (m : Rdram) (addr : UInt32) (value : UInt32) : Written Rdram :=
  match m.span addr 4 with
  | .ok ⟨i, _⟩ =>
    let high := BigEndian.highHalf value
    let low := value.toUInt16
    let m := (m.put i (BigEndian.highByte high)).put (i + 1) high.toUInt8
    ⟨(m.put (i + 2) (BigEndian.highByte low)).put (i + 3) low.toUInt8, none⟩
  | .error fault => ⟨m, some fault⟩

instance : Memory Rdram where
  read8 := read8
  write8 := write8
  read16 := read16
  write16 := write16
  read32 := read32
  write32 := write32

/-! ## Loading -/

/-- The memory with `data` laid over the bytes from `start`. -/
@[inline]
def overlay (m : Rdram) (start : Nat) (data : ByteArray) : Rdram :=
  ⟨data.copySlice 0 m.bytes start data.size⟩

/-- Copy bytes to an address, at any alignment.  The address has to lie in memory even if there are
no bytes, and bytes that run past the end are reported at the address after the last of them. -/
def load (m : Rdram) (addr : UInt32) (data : ByteArray) : Written Rdram :=
  match m.span addr 1 with
  | .ok ⟨i, _⟩ =>
    if i + data.size ≤ m.bytes.size then ⟨m.overlay i data, none⟩
    else ⟨m, some (.invalid (addr + UInt32.ofNat data.size))⟩
  | .error fault => ⟨m, some fault⟩

/-- Lay a memory image over the start of memory. -/
def loadImage (m : Rdram) (image : ByteArray) : Except Error Rdram :=
  if image.size ≤ m.bytes.size then .ok (m.overlay 0 image)
  else .error (.imageTooLarge image.size m.bytes.size)

end Rdram

end DisplayRaster
