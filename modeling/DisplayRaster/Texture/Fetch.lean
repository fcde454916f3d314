import DisplayRaster.RenderState
import DisplayRaster.Texture.Basic

/-!
# Texels in memory

`texelAt` reads one texel of a texture, in any format.  `texelFolded` first folds the coordinate
into the texture by the addressing mode of each axis.
-/

set_option autoImplicit false

namespace DisplayRaster

variable {μ : Type} [Memory μ]

/-- The number of a texel in its texture, counted row by row. -/
def Texture.texelIndex (texture : Texture) (s t : Nat) : UInt32 :=
  UInt32.ofNat t * texture.pitch + UInt32.ofNat s

theorem Texture.texelIndex_eq (texture : Texture) (s t : Nat) :
    texture.texelIndex s t = UInt32.ofNat (t * texture.pitch.toNat + s) := by
  rw [texelIndex, UInt32.ofNat_add, UInt32.ofNat_mul, UInt32.ofNat_toNat]

/-- The color of an index; black and transparent before any table has been set. -/
def RenderState.lookup (st : RenderState) (index : Nat) : UInt16 :=
  match st.table with
  | some table => table.lookup index
  | none => 0

/-- Only the low four bits of the bank count. -/
theorem RenderState.toNat_bank_lt (st : RenderState) : (st.bank &&& 0xF).toNat < 16 := by
  rw [UInt8.toNat_and]
  exact Nat.lt_of_le_of_lt Nat.and_le_right (by decide)

/-- The packed color of texel `(s, t)`.  Unreadable memory reads as zero. -/
@[specialize]
def texelAt (st : RenderState) (m : μ) (source : TexelSource) (s t : Nat) : UInt16 :=
  let index := source.texture.texelIndex s t
  let octet (offset : UInt32) := Memory.byteOrZero m (source.texture.addr + offset)
  let nibble (_ : Unit) := nibbleAt (octet (index / 2)) index.toNat
  let half (_ : Unit) := Memory.halfOr 0 m (source.texture.addr + index * 2)
  match source.format with
  | .ci4 => st.lookup ((st.bank &&& 0xF).toNat * LookupTable.bankSize + (nibble ()).toNat)
  | .ci8 => st.lookup (octet index).toNat
  | .i4 => Texel.i4 (nibble ())
  | .i8 => Texel.i8 (octet index)
  | .ia8 => Texel.ia8 (octet index)
  | .ia16 => Texel.ia16 (half ())
  | .rgba16 => half ()

/-- The texel that a coordinate stands for after addressing. -/
@[specialize]
def texelFolded (st : RenderState) (m : μ) (source : TexelSource) (s t : Int) : UInt16 :=
  texelAt st m source (st.addressS.fold s source.texture.width)
    (st.addressT.fold t source.texture.height)

end DisplayRaster
