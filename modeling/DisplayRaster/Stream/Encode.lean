import DisplayRaster.Stream.Opcode

/-!
# Encoding streams

A stream is the words of its commands one after another, each command as its tag and its operands.
It always ends with the end command: `encode` adds one unless the last command is one already.
Signed coordinates are stored as their two's complement.
-/

set_option autoImplicit false

namespace DisplayRaster

namespace Command

/-- The operand words of a texture. -/
def textureWords (t : Texture) : List UInt32 := [t.addr, t.width, t.height, t.pitch]

/-- The operand words of position and texture coordinate of three vertices. -/
def coordWords (v : Corners Vertex) : List UInt32 :=
  v.toList.flatMap fun v ↦ [v.x.toUInt32, v.y.toUInt32, v.s.toUInt32, v.t.toUInt32]

/-- The operand words of three perspective weights, if the projection needs them. -/
def weightWords (projection : Projection) (v : Corners Vertex) : List UInt32 :=
  match projection with
  | .affine => []
  | .perspective => v.toList.map Vertex.q

/-- The operand words of three depths. -/
def depthWords (v : Corners Vertex) : List UInt32 := v.toList.map fun v ↦ v.z.toUInt32

/-- The operand words of a command. -/
def operands : Command → List UInt32
  | .finish => []
  | .gradient left right => [left.toUInt32, right.toUInt32]
  | .tiles addr size spacing offset =>
    [addr, (size.toUInt32 <<< 24) ||| (spacing.toUInt32 <<< 16) ||| offset.toUInt32]
  | .setTable addr count => [addr, count]
  | .setBank bank => [bank.toUInt32]
  | .setAddressMode s t => [s.toBits ||| (t.toBits <<< 4)]
  | .setFilter filter => [filter.toBits]
  | .setBlendSwitch enabled => [enabled.toUInt32]
  | .setBlend mode => [mode.toBits]
  | .setScissor r => [r.x0.toUInt32, r.y0.toUInt32, r.x1.toUInt32, r.y1.toUInt32]
  | .setPrimColor color => [color.toUInt32]
  | .setEnvColor color => [color.toUInt32]
  | .setCombine mode => [mode.toBits]
  | .setDepthEnabled enabled => [enabled.toUInt32]
  | .setDepthBuffer buffer => [buffer.addr, buffer.width, buffer.height]
  | .clearDepth value => [value.toUInt32]
  | .solidTriangle v => v.toList.flatMap fun v ↦ [v.x.toUInt32, v.y.toUInt32]
  | .solidTriangleDepth v =>
    v.toList.flatMap fun v ↦ [v.x.toUInt32, v.y.toUInt32, v.z.toUInt32]
  | .rect r => [r.width, r.height, r.addr, r.x.toUInt32, r.y.toUInt32]
  | .texTriangle _ projection texture v =>
    textureWords texture ++ coordWords v ++ weightWords projection v
  | .texTriangleDepth projection texture v =>
    textureWords texture ++ coordWords v ++ weightWords projection v ++ depthWords v

/-- A command has as many operands as its opcode says. -/
theorem length_operands (c : Command) : c.operands.length = c.opcode.operandCount := by
  cases c with
  | texTriangle f p t v => cases p <;> rfl
  | texTriangleDepth p t v => cases p <;> rfl
  | _ => rfl

/-- The words of a command: its tag and its operands. -/
def words (c : Command) : List UInt32 := c.opcode.tag :: c.operands

end Command

namespace Stream

/-- Whether a list of commands ends with the end command. -/
def isFinished (commands : List Command) : Bool := commands.getLast? = some .finish

/-- The words of a list of commands, ended by the end command. -/
def encode (commands : List Command) : List UInt32 :=
  let words := commands.flatMap Command.words
  if isFinished commands then words else words ++ [Opcode.tag .finish]

/-- Write the stream of a list of commands into a slot of `slot` words at an address, and give its
length in words. -/
def write {μ : Type} [Memory μ] (m : μ) (addr : UInt32) (slot : Nat) (commands : List Command) :
    μ × Except Error Nat :=
  let words := encode commands
  if slot < words.length then (m, .error (.streamOverflow words.length slot))
  else
    match Memory.writeWords m addr words with
    | ⟨m, none⟩ => (m, .ok words.length)
    | ⟨m, some fault⟩ => (m, .error (.memory fault))

end Stream

end DisplayRaster
