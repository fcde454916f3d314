import DisplayRaster.Command

/-!
# Stream opcodes

An instruction of a stream is a tag word and a fixed number of operand words.  `Opcode` is the kind
of an instruction, `Opcode.tag` its tag and `Opcode.operandCount` the number of its operands.
`Opcode.ofTag?` reads a tag back; a word that is no tag has no opcode.
-/

set_option autoImplicit false

namespace DisplayRaster

namespace Stream

/-- The kind of an instruction. -/
inductive Opcode where
  | finish
  | gradient
  | tiles
  | setTable
  | setBank
  | setAddressMode
  | setFilter
  | setBlendSwitch
  | setBlend
  | setScissor
  | setPrimColor
  | setEnvColor
  | setCombine
  | setDepthEnabled
  | setDepthBuffer
  | clearDepth
  | solidTriangle
  | solidTriangleDepth
  | rect (format : TexelFormat)
  | texTriangle (format : TriangleFormat) (projection : Projection)
  | texTriangleDepth (projection : Projection)
  deriving DecidableEq

namespace Opcode

/-- The tag of a rectangle. -/
def rectTag : TexelFormat → UInt32
  | .ci8 => 0x21
  | .ci4 => 0x22
  | .rgba16 => 0x29
  | .ia8 => 0x2A
  | .ia16 => 0x2B
  | .i4 => 0x2C
  | .i8 => 0x2D

/-- The tag of a textured triangle.  The indexed formats have both affine tags before both
perspective tags; the others have them in pairs. -/
def triangleTag : TriangleFormat → Projection → UInt32
  | .ci8, .affine => 0x41
  | .ci4, .affine => 0x42
  | .ci8, .perspective => 0x43
  | .ci4, .perspective => 0x44
  | .ia8, .affine => 0x45
  | .ia8, .perspective => 0x46
  | .ia16, .affine => 0x47
  | .ia16, .perspective => 0x48
  | .rgba16, .affine => 0x49
  | .rgba16, .perspective => 0x4A

/-- The tag word of an opcode. -/
def tag : Opcode → UInt32
  | .finish => 0x00
  | .gradient => 0x01
  | .tiles => 0x10
  | .setTable => 0x20
  | .setBank => 0x23
  | .setAddressMode => 0x24
  | .setFilter => 0x25
  | .setBlendSwitch => 0x26
  | .setBlend => 0x27
  | .setScissor => 0x28
  | .setPrimColor => 0x30
  | .setEnvColor => 0x31
  | .setCombine => 0x32
  | .solidTriangle => 0x40
  | .setDepthEnabled => 0x50
  | .setDepthBuffer => 0x51
  | .clearDepth => 0x52
  | .solidTriangleDepth => 0x53
  | .texTriangleDepth .affine => 0x58
  | .texTriangleDepth .perspective => 0x5D
  | .rect format => rectTag format
  | .texTriangle format projection => triangleTag format projection

/-- Every opcode, in the order of the tags. -/
def all : List Opcode :=
  [.finish, .gradient, .tiles, .setTable, .rect .ci8, .rect .ci4, .setBank, .setAddressMode,
    .setFilter, .setBlendSwitch, .setBlend, .setScissor, .rect .rgba16, .rect .ia8, .rect .ia16,
    .rect .i4, .rect .i8, .setPrimColor, .setEnvColor, .setCombine, .solidTriangle,
    .texTriangle .ci8 .affine, .texTriangle .ci4 .affine, .texTriangle .ci8 .perspective,
    .texTriangle .ci4 .perspective, .texTriangle .ia8 .affine, .texTriangle .ia8 .perspective,
    .texTriangle .ia16 .affine, .texTriangle .ia16 .perspective, .texTriangle .rgba16 .affine,
    .texTriangle .rgba16 .perspective, .setDepthEnabled, .setDepthBuffer, .clearDepth,
    .solidTriangleDepth, .texTriangleDepth .affine, .texTriangleDepth .perspective]

theorem mem_all (op : Opcode) : op ∈ all := by
  cases op with
  | rect f => cases f <;> decide
  | texTriangle f p => cases f <;> cases p <;> decide
  | texTriangleDepth p => cases p <;> decide
  | _ => decide

/-- No two opcodes share a tag. -/
theorem tag_injective {a b : Opcode} (h : a.tag = b.tag) : a = b := by
  have hall : ∀ a ∈ all, ∀ b ∈ all, a.tag = b.tag → a = b := by decide
  exact hall a (mem_all a) b (mem_all b) h

/-- The opcode of a tag word. -/
def ofTag? (word : UInt32) : Option Opcode := all.find? fun op ↦ op.tag = word

theorem ofTag?_eq_some_iff {word : UInt32} {op : Opcode} :
    ofTag? word = some op ↔ op.tag = word := by
  constructor
  · intro h
    simpa using List.find?_some h
  · rintro rfl
    cases hf : ofTag? op.tag with
    | none =>
      have := List.find?_eq_none.1 hf op (mem_all op)
      simp at this
    | some op' =>
      have h := List.find?_some hf
      exact congrArg some (tag_injective (by simpa using h))

@[simp]
theorem ofTag?_tag (op : Opcode) : ofTag? op.tag = some op := ofTag?_eq_some_iff.2 rfl

/-- The words of a texture followed by position and texture coordinate of three vertices. -/
abbrev texturedOperands : Nat := 16

/-- The number of operand words. -/
def operandCount : Opcode → Nat
  | .finish => 0
  | .gradient | .tiles | .setTable => 2
  | .setBank | .setAddressMode | .setFilter | .setBlendSwitch | .setBlend | .setPrimColor
  | .setEnvColor | .setCombine | .setDepthEnabled | .clearDepth => 1
  | .setScissor => 4
  | .setDepthBuffer => 3
  | .rect _ => 5
  | .solidTriangle => 6
  | .solidTriangleDepth => 9
  | .texTriangle _ .affine => texturedOperands
  | .texTriangle _ .perspective => texturedOperands + 3
  | .texTriangleDepth .affine => texturedOperands + 3
  | .texTriangleDepth .perspective => texturedOperands + 6

theorem operandCount_le (op : Opcode) : op.operandCount ≤ texturedOperands + 6 := by
  have h : ∀ op ∈ all, op.operandCount ≤ texturedOperands + 6 := by decide
  exact h op (mem_all op)

end Opcode

end Stream

/-- The kind of instruction that a command becomes. -/
def Command.opcode : Command → Stream.Opcode
  | .finish => .finish
  | .gradient .. => .gradient
  | .tiles .. => .tiles
  | .setTable .. => .setTable
  | .setBank _ => .setBank
  | .setAddressMode .. => .setAddressMode
  | .setFilter _ => .setFilter
  | .setBlendSwitch _ => .setBlendSwitch
  | .setBlend _ => .setBlend
  | .setScissor _ => .setScissor
  | .setPrimColor _ => .setPrimColor
  | .setEnvColor _ => .setEnvColor
  | .setCombine _ => .setCombine
  | .setDepthEnabled _ => .setDepthEnabled
  | .setDepthBuffer _ => .setDepthBuffer
  | .clearDepth _ => .clearDepth
  | .solidTriangle _ => .solidTriangle
  | .solidTriangleDepth _ => .solidTriangleDepth
  | .rect r => .rect r.format
  | .texTriangle format projection .. => .texTriangle format projection
  | .texTriangleDepth projection .. => .texTriangleDepth projection

end DisplayRaster
