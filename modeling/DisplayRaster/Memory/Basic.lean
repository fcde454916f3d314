import DisplayRaster.Error
import DisplayRaster.Texel.Decode

/-!
# Memory

The renderer does not own memory; it reads and writes bytes, halfwords and words at 32-bit addresses
through the class `Memory`.  An instance has to say how a byte is read and written.  The wide
accesses are big-endian compositions of byte accesses (`BigEndian`), unless the instance has an
access of its own.

A write gives back the memory together with the reason for a failure, if there was one (`Written`):
a wide write that is composed of byte writes may fail after its first bytes have been written.
-/

set_option autoImplicit false

namespace DisplayRaster

/-- What a write leaves behind: the memory afterwards, and why the write failed if it did. -/
structure Written (μ : Type) where
  memory : μ
  fault : Option MemoryFault

namespace Written

/-- Go on with another write, unless this one failed. -/
@[inline]
def andThen {μ : Type} (w : Written μ) (next : μ → Written μ) : Written μ :=
  match w with
  | ⟨m, none⟩ => next m
  | ⟨m, some fault⟩ => ⟨m, some fault⟩

@[simp]
theorem andThen_none {μ : Type} (m : μ) (next : μ → Written μ) :
    andThen ⟨m, none⟩ next = next m := rfl

@[simp]
theorem andThen_some {μ : Type} (m : μ) (fault : MemoryFault) (next : μ → Written μ) :
    andThen ⟨m, some fault⟩ next = ⟨m, some fault⟩ := rfl

end Written

/-! ## Wide accesses from narrow ones -/

namespace BigEndian

variable {μ : Type}

/-- A word of two halfwords. -/
def word (high low : UInt16) : UInt32 := (high.toUInt32 <<< 16) ||| low.toUInt32

/-- The high byte of a halfword. -/
def highByte (value : UInt16) : UInt8 := (value >>> 8).toUInt8

/-- The high halfword of a word. -/
def highHalf (value : UInt32) : UInt16 := (value >>> 16).toUInt16

/-- A halfword read as two bytes. -/
@[inline]
def read16 (read8 : UInt32 → Except MemoryFault UInt8) (addr : UInt32) :
    Except MemoryFault UInt16 := do
  let high ← read8 addr
  let low ← read8 (addr + 1)
  return halfword high low

/-- A word read as two halfwords. -/
@[inline]
def read32 (read16 : UInt32 → Except MemoryFault UInt16) (addr : UInt32) :
    Except MemoryFault UInt32 := do
  let high ← read16 addr
  let low ← read16 (addr + 2)
  return word high low

/-- A halfword written as two bytes. -/
@[inline]
def write16 (write8 : μ → UInt32 → UInt8 → Written μ) (m : μ) (addr : UInt32) (value : UInt16) :
    Written μ :=
  (write8 m addr (highByte value)).andThen fun m ↦ write8 m (addr + 1) value.toUInt8

/-- A word written as two halfwords. -/
@[inline]
def write32 (write16 : μ → UInt32 → UInt16 → Written μ) (m : μ) (addr : UInt32) (value : UInt32) :
    Written μ :=
  (write16 m addr (highHalf value)).andThen fun m ↦ write16 m (addr + 2) value.toUInt16

end BigEndian

/-! ## The interface -/

/-- Memory as the renderer sees it. -/
class Memory (μ : Type) where
  read8 : μ → UInt32 → Except MemoryFault UInt8
  write8 : μ → UInt32 → UInt8 → Written μ
  read16 : μ → UInt32 → Except MemoryFault UInt16 := fun m ↦ BigEndian.read16 (read8 m)
  write16 : μ → UInt32 → UInt16 → Written μ := BigEndian.write16 write8
  read32 : μ → UInt32 → Except MemoryFault UInt32 := fun m ↦ BigEndian.read32 (read16 m)
  write32 : μ → UInt32 → UInt32 → Written μ := BigEndian.write32 write16

namespace Memory

variable {μ : Type} [Memory μ]

/-- The byte at an address; unreadable memory reads as zero. -/
@[inline]
def byteOrZero (m : μ) (addr : UInt32) : UInt8 :=
  match read8 m addr with
  | .ok value => value
  | .error _ => 0

/-- The halfword at an address, or a default where memory cannot be read. -/
@[inline]
def halfOr (default : UInt16) (m : μ) (addr : UInt32) : UInt16 :=
  match read16 m addr with
  | .ok value => value
  | .error _ => default

/-- Bytes written one after another, up to the first that cannot be written. -/
def writeBytes (m : μ) (addr : UInt32) : List UInt8 → Written μ
  | [] => ⟨m, none⟩
  | byte :: rest => (write8 m addr byte).andThen fun m ↦ writeBytes m (addr + 1) rest

/-- Words written one after another, up to the first that cannot be written. -/
def writeWords (m : μ) (addr : UInt32) : List UInt32 → Written μ
  | [] => ⟨m, none⟩
  | word :: rest => (write32 m addr word).andThen fun m ↦ writeWords m (addr + 4) rest

end Memory

end DisplayRaster
