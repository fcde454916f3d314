import DisplayRaster.Stream.Decode

/-!
# Interpreting streams

A stream runs instruction by instruction.  `fetch` reads one: its tag, and its operands if the word
budget admits them all.  It stops at the end command, at a word that is no tag, at a word that
cannot be read and at the end of the budget; none of these is an error, and an instruction that is
not fetched whole has no effect.  `run` repeats: fetch an instruction, apply its command to the
renderer state and the memory.
-/

set_option autoImplicit false

namespace DisplayRaster

namespace Stream

/-- Why a stream stopped. -/
inductive Halt where
  /-- The end command. -/
  | finished
  /-- Too few words left in the budget. -/
  | budget
  /-- A word that is no tag. -/
  | unknownOpcode (word : UInt32)
  /-- A word that cannot be read. -/
  | fault (addr : UInt32)
  deriving DecidableEq

/-- An opcode with its operands. -/
structure Instruction where
  opcode : Opcode
  operands : Vector UInt32 opcode.operandCount

/-- The command of an instruction. -/
def Instruction.command (i : Instruction) : Command := Stream.command i.opcode i.operands

/-- A place in a stream: the address of the next word and how many words may still be read. -/
structure Cursor where
  addr : UInt32
  budget : Nat
  deriving DecidableEq

variable {μ : Type} [Memory μ]

/-- The `n` words from an address on, or the address of the first that cannot be read. -/
@[specialize]
def readWords (m : μ) (addr : UInt32) : (n : Nat) → Except UInt32 (Vector UInt32 n)
  | 0 => .ok #v[]
  | n + 1 =>
    match readWords m addr n with
    | .error fault => .error fault
    | .ok words =>
      let next := addr + 4 * UInt32.ofNat n
      match Memory.read32 m next with
      | .ok word => .ok (words.push word)
      | .error _ => .error next

/-- The instruction at a place in a stream, and the place after it. -/
@[specialize]
def fetch (m : μ) (cursor : Cursor) : Except Halt (Instruction × Cursor) :=
  if cursor.budget = 0 then .error .budget
  else
    match Memory.read32 m cursor.addr with
    | .error _ => .error (.fault cursor.addr)
    | .ok word =>
      match Opcode.ofTag? word with
      | none => .error (.unknownOpcode word)
      | some .finish => .error .finished
      | some op =>
        if cursor.budget < 1 + op.operandCount then .error .budget
        else
          match readWords m (cursor.addr + 4) op.operandCount with
          | .error addr => .error (.fault addr)
          | .ok operands =>
            .ok (⟨op, operands⟩,
              ⟨cursor.addr + 4 * UInt32.ofNat (1 + op.operandCount),
                cursor.budget - (1 + op.operandCount)⟩)

/-- What a stream leaves behind. -/
structure Outcome (μ : Type) where
  halt : Halt
  state : RenderState
  memory : μ

/-- Run at most `fuel` instructions. -/
@[specialize]
def runFor (fb : Framebuffer) : (fuel : Nat) → RenderState → μ → Cursor → Outcome μ
  | 0, st, m, _ => ⟨.budget, st, m⟩
  | fuel + 1, st, m, cursor =>
    match fetch m cursor with
    | .error halt => ⟨halt, st, m⟩
    | .ok (instruction, cursor) =>
      match instruction.command.apply fb st m with
      | (st, m) => runFor fb fuel st m cursor

/-- Run a stream from a state.  An instruction takes at least one word, so the budget bounds their
number. -/
@[specialize]
def run (fb : Framebuffer) (st : RenderState) (m : μ) (cursor : Cursor) : Outcome μ :=
  runFor fb cursor.budget st m cursor

/-- The memory after the stream at `start` has run from the initial state on at most `budget`
words. -/
@[specialize]
def render (fb : Framebuffer) (m : μ) (start : UInt32) (budget : Nat) : μ :=
  (run fb (.initial fb.width fb.height) m ⟨start, budget⟩).memory

end Stream

end DisplayRaster
