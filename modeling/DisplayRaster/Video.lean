import DisplayRaster.Framebuffer

/-!
# Video registers

Two registers place the framebuffer: its address and the pixels from one row to the next.  Writes
through the register interface keep the bits that are wired; other registers read as zero and ignore
writes.
-/

set_option autoImplicit false

namespace DisplayRaster

/-- The registers that place the framebuffer. -/
structure VideoRegisters where
  /-- The address of the first pixel. -/
  origin : UInt32
  /-- The pixels from one row to the next. -/
  width : UInt32
  deriving DecidableEq

namespace VideoRegisters

/-- The registers at power-on. -/
def zero : VideoRegisters := ⟨0, 0⟩

/-- The offset of the origin register. -/
def originOffset : UInt32 := 4

/-- The offset of the width register. -/
def widthOffset : UInt32 := 8

/-- The register at an offset. -/
def read (v : VideoRegisters) (offset : UInt32) : UInt32 :=
  if offset = originOffset then v.origin
  else if offset = widthOffset then v.width
  else 0

/-- Write the register at an offset: 24 bits of the origin, 12 bits of the width. -/
def write (v : VideoRegisters) (offset value : UInt32) : VideoRegisters :=
  if offset = originOffset then { v with origin := value &&& 0x00FFFFFF }
  else if offset = widthOffset then { v with width := value &&& 0x0FFF }
  else v

/-- The framebuffer of a given size that the registers place. -/
def framebuffer (v : VideoRegisters) (width height : UInt32) : Framebuffer :=
  ⟨v.origin, v.width, width, height⟩

end VideoRegisters

end DisplayRaster
