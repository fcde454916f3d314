import DisplayRaster.Hex

/-!
# Errors

Drawing and translating never fail: a malformed display list only draws less.  Errors arise where
the host meets the renderer: an access to memory (`MemoryFault`), a stream that is longer than its
slot, a memory image that does not fit, a file that cannot be read and a configuration that does not
parse (`Error`).  `Error.message` gives the wording.
-/

set_option autoImplicit false

namespace DisplayRaster

/-- Why a memory access failed.  The address is the one the access was given, before it is
mapped to memory. -/
inductive MemoryFault where
  /-- A byte of the access lies outside memory. -/
  | invalid (address : UInt32)
  /-- An access of `size` bytes at an address that is no multiple of `size`. -/
  | unaligned (address : UInt32) (size : Nat)
  deriving DecidableEq

/-- The wording of a memory fault. -/
def MemoryFault.message : MemoryFault → String
  | .invalid address => s!"Invalid memory access at 0x{Hex.fixed .upper 8 address.toNat}"
  | .unaligned address size =>
    s!"Unaligned memory access: {size}-byte access at 0x{Hex.fixed .upper 8 address.toNat}"

/-- Why a request of the host failed. -/
inductive Error where
  | memory (fault : MemoryFault)
  /-- An encoded stream of `needed` words for a slot of `slot` words. -/
  | streamOverflow (needed slot : Nat)
  /-- A memory image of `size` bytes for a memory of `capacity` bytes. -/
  | imageTooLarge (size capacity : Nat)
  /-- A file that is missing, cannot be read, or cannot be written. -/
  | file
  /-- A configuration that is no valid document or holds a value of the wrong kind. -/
  | configuration
  deriving DecidableEq

/-- The wording of an error. -/
def Error.message : Error → String
  | .memory fault => fault.message
  | .streamOverflow needed slot =>
    s!"RSPDL stream needs {needed} words but the slot holds {slot}"
  | .imageTooLarge size capacity =>
    s!"RDRAM image too large: {size} bytes (RDRAM is {capacity} bytes)"
  | .file => "I/O error"
  | .configuration => "Configuration error"

end DisplayRaster
