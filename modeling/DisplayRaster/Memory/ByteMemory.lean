import DisplayRaster.Memory.Basic

/-!
# Memory with byte accesses only

`ByteMemory` has neither mirrors nor an alignment rule: an address is valid iff it is below the
size.  Its wide accesses are the compositions of byte accesses that the class `Memory` supplies.
-/

set_option autoImplicit false

namespace DisplayRaster

/-- A run of bytes from address zero. -/
structure ByteMemory where
  bytes : ByteArray

namespace ByteMemory

/-- Memory of `size` zero bytes. -/
def zeroed (size : Nat) : ByteMemory := ⟨⟨Array.replicate size 0⟩⟩

/-- The number of bytes. -/
def size (m : ByteMemory) : Nat := m.bytes.size

/-- The memory with every byte zero. -/
def reset (m : ByteMemory) : ByteMemory := zeroed m.size

/-- The byte at an address. -/
def read8 (m : ByteMemory) (addr : UInt32) : Except MemoryFault UInt8 :=
  if h : addr.toNat < m.bytes.size then .ok m.bytes[addr.toNat] else .error (.invalid addr)

/-- Write the byte at an address. -/
def write8 (m : ByteMemory) (addr : UInt32) (value : UInt8) : Written ByteMemory :=
  if addr.toNat < m.bytes.size then ⟨⟨m.bytes.set! addr.toNat value⟩, none⟩
  else ⟨m, some (.invalid addr)⟩

instance : Memory ByteMemory where
  read8 := read8
  write8 := write8

end ByteMemory

end DisplayRaster
