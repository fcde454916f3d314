import DisplayRaster.Extent
import DisplayRaster.Memory.Basic

/-!
# Depth buffers

A depth buffer is a rectangle of depths in memory, one halfword a sample, whose rows follow each
other without a gap.  It is unset until it has an extent.  A pixel without a sample, or with one
that cannot be read, is as far away as can be.
-/

set_option autoImplicit false

namespace DisplayRaster

/-- Where the depth samples are. -/
structure DepthBuffer where
  /-- The address of the first sample. -/
  addr : UInt32
  width : UInt32
  height : UInt32
  deriving DecidableEq

namespace DepthBuffer

/-- The buffer before any has been declared. -/
def unset : DepthBuffer := ⟨0, 0, 0⟩

/-- The depth of a pixel that has no sample. -/
def far : UInt16 := 0xFFFF

/-- Whether the buffer has any sample. -/
def isSet (z : DepthBuffer) : Bool := z.width != 0 && z.height != 0

/-- Whether a pixel has a sample. -/
def contains (z : DepthBuffer) (x y : Int) : Bool := inExtent z.width z.height x y

/-- The address of the sample of a pixel. -/
def addressOf (z : DepthBuffer) (x y : Int) : UInt32 :=
  z.addr + (coordWord y * z.width + coordWord x) * 2

/-- The number of samples. -/
def sampleCount (z : DepthBuffer) : Nat := z.width.toNat * z.height.toNat

/-! ## Samples in memory -/

variable {μ : Type} [Memory μ]

/-- The depth of a pixel. -/
@[specialize]
def stored (z : DepthBuffer) (m : μ) (x y : Int) : UInt16 :=
  if z.contains x y then Memory.halfOr far m (z.addressOf x y) else far

/-- Whether a depth is nearer than the one stored. -/
@[specialize]
def passes (z : DepthBuffer) (m : μ) (x y : Int) (depth : UInt16) : Bool :=
  depth < z.stored m x y

/-- Store the depth of a pixel, if it has a sample. -/
@[specialize]
def store (z : DepthBuffer) (m : μ) (x y : Int) (depth : UInt16) : μ :=
  if z.contains x y then (Memory.write16 m (z.addressOf x y) depth).memory else m

/-- Write `value` to `count` samples from an address on, up to the first that cannot be written. -/
@[specialize]
def fillSamples (value : UInt16) : (count : Nat) → (addr : UInt32) → μ → μ
  | 0, _, m => m
  | count + 1, addr, m =>
    match Memory.write16 m addr value with
    | ⟨m, none⟩ => fillSamples value count (addr + 2) m
    | ⟨m, some _⟩ => m

/-- Write `value` to every sample, row by row. -/
@[specialize]
def clear (z : DepthBuffer) (m : μ) (value : UInt16) : μ :=
  fillSamples value z.sampleCount z.addr m

end DepthBuffer

end DisplayRaster
