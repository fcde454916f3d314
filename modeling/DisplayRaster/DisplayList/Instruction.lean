import DisplayRaster.DisplayList.Image
import DisplayRaster.DisplayList.VertexRecord

/-!
# Display-list instructions

An instruction of a display list in memory is two words.  The top byte of the first is its opcode;
the rest of the first word and the second word hold its fields.  `Operation` is what an instruction
asks for and `Instruction.operation` reads it; an unknown opcode asks for nothing.  The functions in
`Instruction` named after operations build instructions; fields that are too wide keep their low
bits.
-/

set_option autoImplicit false

namespace DisplayRaster

namespace DisplayList

/-! ## Opcodes -/

/-- The opcode byte of each kind of instruction. -/
inductive Code where
  | vertices (layout : VertexLayout)
  | triangle (layout : VertexLayout)
  | segment
  | jump
  | endList
  | setScissor
  | textureRectangle
  | setFilter
  | setBlend
  | setDepthEnabled
  | setDepthImage
  | clearDepth
  | loadTable
  | setTileSize
  | setTile
  | setPrimColor
  | setEnvColor
  | setCombine
  | setTextureImage
  deriving DecidableEq

namespace Code

/-- The opcode byte. -/
def byte : Code → UInt8
  | .vertices .plain => 0xB4
  | .triangle .plain => 0xB5
  | .vertices .tex => 0xB6
  | .triangle .tex => 0xB7
  | .vertices .texDepth => 0xB8
  | .triangle .texDepth => 0xB9
  | .vertices .texWeightDepth => 0xBA
  | .triangle .texWeightDepth => 0xBB
  | .segment => 0xD7
  | .jump => 0xDE
  | .endList => 0xDF
  | .setScissor => 0xE3
  | .textureRectangle => 0xE4
  | .setFilter => 0xEA
  | .setBlend => 0xEB
  | .setDepthEnabled => 0xEC
  | .setDepthImage => 0xED
  | .clearDepth => 0xEE
  | .loadTable => 0xF0
  | .setTileSize => 0xF2
  | .setTile => 0xF5
  | .setPrimColor => 0xFA
  | .setEnvColor => 0xFB
  | .setCombine => 0xFC
  | .setTextureImage => 0xFD

/-- Every opcode, in the order of the bytes. -/
def all : List Code :=
  [.vertices .plain, .triangle .plain, .vertices .tex, .triangle .tex, .vertices .texDepth,
    .triangle .texDepth, .vertices .texWeightDepth, .triangle .texWeightDepth, .segment, .jump,
    .endList, .setScissor, .textureRectangle, .setFilter, .setBlend, .setDepthEnabled,
    .setDepthImage, .clearDepth, .loadTable, .setTileSize, .setTile, .setPrimColor, .setEnvColor,
    .setCombine, .setTextureImage]

/-- The opcode of a byte. -/
def ofByte? (b : UInt8) : Option Code := all.find? fun code ↦ code.byte = b

@[simp]
theorem ofByte?_byte (code : Code) : ofByte? code.byte = some code := by
  cases code with
  | vertices layout => cases layout <;> decide
  | triangle layout => cases layout <;> decide
  | _ => decide

end Code

/-! ## Instructions -/

/-- The two words of an instruction. -/
structure Instruction where
  w0 : UInt32
  w1 : UInt32
  deriving DecidableEq

namespace Instruction

/-- The size of an instruction in bytes. -/
def size : UInt32 := 8

/-- The first word of an instruction. -/
def firstWord (code : Code) (fields : UInt32) : UInt32 :=
  (code.byte.toUInt32 <<< 24) ||| (fields &&& 0x00FFFFFF)

/-- Two twelve-bit fields in the low bits of a word. -/
def fieldPair (high low : UInt32) : UInt32 := ((high &&& 0xFFF) <<< 12) ||| (low &&& 0xFFF)

/-- One less than a count, as counts are stored; zero is stored like one. -/
def lessOne (count : UInt32) : UInt32 := if count = 0 then 0 else count - 1

/-- The end of a display list. -/
def endList : Instruction := ⟨firstWord .endList 0, 0⟩

/-- Run the display list at an address, then go on here. -/
def call (addr : UInt32) : Instruction := ⟨firstWord .jump 1, addr⟩

/-- Go on with the display list at an address. -/
def branch (addr : UInt32) : Instruction := ⟨firstWord .jump 0, addr⟩

/-- Set the base of a segment. -/
def segment (id : UInt8) (base : UInt32) : Instruction :=
  ⟨firstWord .segment (id &&& 0xF).toUInt32, base⟩

/-- The field for the size of a texel.  A format without a size of its own has a field that selects
no format. -/
def texelSize : TexelFormat → UInt32
  | .ci4 => 0
  | .ci8 => 1
  | .rgba16 => 2
  | .i4 | .i8 | .ia8 | .ia16 => 3

/-- Name the image at an address. -/
def setTextureImage (format : TexelFormat) (width addr : UInt32) : Instruction :=
  ⟨firstWord .setTextureImage ((texelSize format <<< 19) ||| (lessOne width &&& 0xFFF)), addr⟩

/-- Load the lookup table from an address. -/
def loadTable (count addr : UInt32) : Instruction :=
  ⟨firstWord .loadTable (count &&& 0x1FF), addr⟩

/-- Set the size of the tile. -/
def setTileSize (c : Box) : Instruction :=
  ⟨firstWord .setTileSize (fieldPair c.ulx c.uly), fieldPair c.lrx c.lry⟩

/-- Set the scissor. -/
def setScissor (c : Box) : Instruction :=
  ⟨firstWord .setScissor (fieldPair c.ulx c.uly), fieldPair c.lrx c.lry⟩

/-- Draw the image between two corners. -/
def textureRectangle (c : Box) : Instruction :=
  ⟨firstWord .textureRectangle (fieldPair c.lrx c.lry), fieldPair c.ulx c.uly⟩

/-- Select the bank of the lookup table and the addressing modes. -/
def setTile (bank : UInt8) (s t : AddressMode) : Instruction :=
  ⟨firstWord .setTile 0,
    ((bank &&& 0xF).toUInt32 <<< 20) ||| (t.toTileBits <<< 18) ||| (s.toTileBits <<< 8)⟩

/-- Set the primitive color. -/
def setPrimColor (color : UInt16) : Instruction := ⟨firstWord .setPrimColor 0, color.toUInt32⟩

/-- Set the environment color. -/
def setEnvColor (color : UInt16) : Instruction := ⟨firstWord .setEnvColor 0, color.toUInt32⟩

/-- Select where draws take their colors from. -/
def setCombine (mode : CombineMode) : Instruction := ⟨firstWord .setCombine 0, mode.toBits⟩

/-- Load vertex records from an address. -/
def vertices (layout : VertexLayout) (count addr : UInt32) : Instruction :=
  ⟨firstWord (.vertices layout) (lessOne count &&& 0xFFF), addr⟩

/-- A vertex slot as a four-bit field. -/
def slotField (slot : UInt8) : UInt32 := (slot &&& 0xF).toUInt32

/-- Draw the triangle of three loaded vertices. -/
def triangle (layout : VertexLayout) (a b c : UInt8) : Instruction :=
  ⟨firstWord (.triangle layout) (slotField a ||| (slotField b <<< 4) ||| (slotField c <<< 8)), 0⟩

/-- Switch the depth test on or off. -/
def setDepthEnabled (enabled : Bool) : Instruction :=
  ⟨firstWord .setDepthEnabled 0, enabled.toUInt32⟩

/-- Place the depth buffer. -/
def setDepthImage (width height addr : UInt32) : Instruction :=
  ⟨firstWord .setDepthImage (fieldPair width height), addr⟩

/-- Fill the depth buffer. -/
def clearDepth (value : UInt16) : Instruction := ⟨firstWord .clearDepth 0, value.toUInt32⟩

/-- Select the texture filter. -/
def setFilter (filter : TextureFilter) : Instruction := ⟨firstWord .setFilter 0, filter.toBits⟩

/-- Select the blend mode. -/
def setBlend (mode : BlendMode) : Instruction := ⟨firstWord .setBlend 0, mode.toBits⟩

/-! ## Reading instructions -/

/-- The opcode of an instruction. -/
def code? (i : Instruction) : Option Code := Code.ofByte? (i.w0 >>> 24).toUInt8

end Instruction

/-- What an instruction asks for.  Addresses are still segmented. -/
inductive Operation where
  /-- Go back to the caller, or end. -/
  | endList
  /-- Go on at an address; if `returns`, come back after the list there has ended. -/
  | jump (returns : Bool) (addr : UInt32)
  | segment (id : Fin 16) (base : UInt32)
  | setTextureImage (format : TexelFormat) (width addr : UInt32)
  | loadTable (count addr : UInt32)
  | setTileSize (corners : Box)
  | setScissor (corners : Box)
  | textureRectangle (corners : Box)
  | setTile (bank : UInt8) (s t : AddressMode)
  | setPrimColor (color : UInt16)
  | setEnvColor (color : UInt16)
  | setCombine (mode : CombineMode)
  | vertices (layout : VertexLayout) (count : Nat) (addr : UInt32)
  | triangle (layout : VertexLayout) (indices : Corners Nat)
  | setDepthEnabled (enabled : Bool)
  | setDepthImage (width height addr : UInt32)
  | clearDepth (value : UInt16)
  | setFilter (filter : TextureFilter)
  | setBlend (mode : BlendMode)
  /-- Nothing. -/
  | ignored
  deriving DecidableEq

namespace Instruction

/-- The high one of the two twelve-bit fields of a word. -/
def highField (word : UInt32) : UInt32 := (word >>> 12) &&& 0xFFF

/-- The low one of the two twelve-bit fields of a word. -/
def lowField (word : UInt32) : UInt32 := word &&& 0xFFF

/-- The box with the upper left corner in one word and the lower right corner in another. -/
def boxOf (upperLeft lowerRight : UInt32) : Box :=
  ⟨highField upperLeft, lowField upperLeft, highField lowerRight, lowField lowerRight⟩

/-- The number of lookup table entries of a count field: zero stands for all, and more than all are
not loaded. -/
def tableCount (field : UInt32) : UInt32 := if field = 0 then 256 else min field 256

/-- The format of a texel size field. -/
def texelFormat? (field : UInt32) : Option TexelFormat :=
  match field with
  | 0 => some .ci4
  | 1 => some .ci8
  | 2 => some .rgba16
  | _ => none

/-- What an instruction with a known opcode asks for. -/
def operationOf (i : Instruction) : Code → Operation
  | .endList => .endList
  | .jump => .jump (i.w0 &&& 1 != 0) i.w1
  | .segment => .segment (Fin.ofNat 16 i.w0.toNat) i.w1
  | .setTextureImage =>
    match texelFormat? ((i.w0 >>> 19) &&& 3) with
    | some format => .setTextureImage format ((i.w0 &&& 0xFFF) + 1) i.w1
    | none => .ignored
  | .loadTable => .loadTable (tableCount (i.w0 &&& 0x1FF)) i.w1
  | .setTileSize => .setTileSize (boxOf i.w0 i.w1)
  | .setScissor => .setScissor (boxOf i.w0 i.w1)
  | .textureRectangle => .textureRectangle (boxOf i.w1 i.w0)
  | .setTile =>
    .setTile ((i.w1 >>> 20) &&& 0xF).toUInt8 (.ofTileBits (i.w1 >>> 8)) (.ofTileBits (i.w1 >>> 18))
  | .setPrimColor => .setPrimColor i.w1.toUInt16
  | .setEnvColor => .setEnvColor i.w1.toUInt16
  | .setCombine => .setCombine (.ofBits i.w1)
  | .vertices layout => .vertices layout ((i.w0 &&& 0xFFF).toNat + 1) i.w1
  | .triangle layout =>
    .triangle layout
      ⟨(i.w0 &&& 0xF).toNat, ((i.w0 >>> 4) &&& 0xF).toNat, ((i.w0 >>> 8) &&& 0xF).toNat⟩
  | .setDepthEnabled => .setDepthEnabled (i.w1 &&& 1 != 0)
  | .setDepthImage => .setDepthImage (highField i.w0) (lowField i.w0) i.w1
  | .clearDepth => .clearDepth i.w1.toUInt16
  | .setFilter => .setFilter (.ofBits (i.w1 &&& 1))
  | .setBlend => .setBlend (.ofBits (i.w1 &&& 3))

/-- What an instruction asks for. -/
def operation (i : Instruction) : Operation :=
  match i.code? with
  | some code => i.operationOf code
  | none => .ignored

/-- The words of instructions one after another. -/
def words (instructions : List Instruction) : List UInt32 :=
  instructions.flatMap fun i ↦ [i.w0, i.w1]

/-- Write instructions one after another from an address on. -/
def write {μ : Type} [Memory μ] (m : μ) (addr : UInt32) (instructions : List Instruction) :
    Written μ :=
  Memory.writeWords m addr (words instructions)

end Instruction

end DisplayList

end DisplayRaster
