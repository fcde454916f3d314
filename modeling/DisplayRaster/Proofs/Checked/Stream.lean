import DisplayRaster.Proofs.Checked.Draws
import DisplayRaster.Stream.Interpreter

/-!
# Streams with checked operations

The interpreter written once more, over the checked draws.  What it knows of an opcode comes from
two places that could disagree: a table of operand counts (`argumentCount?`), by which the words of
an instruction are fetched into a buffer, and a handler for each opcode (`command?`), which picks
them out by index.  A handler that looks beyond the words that were fetched has no result, and so
has an opcode that the table does not know.

`run?_eq` says that nothing of this ever happens, whatever the stream is: the checked interpreter
always has a result, and it is that of the interpreter.
-/

set_option autoImplicit false

namespace DisplayRaster

namespace Stream

/-! ## Operand counts -/

/-- The size of the buffer that operand words are fetched into. -/
def bufferSize : Nat := 22

/-- How many operand words follow a tag; none for a word that is no tag. -/
def argumentCount? (tag : UInt32) : Option Nat :=
  match tag with
  | 0x00 => some 0
  | 0x01 | 0x10 | 0x20 => some 2
  | 0x21 | 0x22 | 0x29 | 0x2A | 0x2B | 0x2C | 0x2D => some 5
  | 0x23 | 0x24 | 0x25 | 0x26 | 0x27 | 0x30 | 0x31 | 0x32 | 0x50 | 0x52 => some 1
  | 0x28 => some 4
  | 0x51 => some 3
  | 0x40 => some 6
  | 0x53 => some 9
  | 0x41 | 0x42 | 0x45 | 0x47 | 0x49 => some 16
  | 0x43 | 0x44 | 0x46 | 0x48 | 0x4A | 0x58 => some 19
  | 0x5D => some 22
  | _ => none

/-- The opcode whose handler a tag is dispatched to.  The end command has no handler. -/
def dispatch? (tag : UInt32) : Option Opcode := (Opcode.ofTag? tag).filter (· ≠ .finish)

theorem argumentCount?_tag (op : Opcode) : argumentCount? op.tag = some op.operandCount := by
  have h : ∀ op ∈ Opcode.all, argumentCount? op.tag = some op.operandCount := by decide
  exact h op (Opcode.mem_all op)

theorem isSome_ofTag? {tag : UInt32} (h : (argumentCount? tag).isSome = true) :
    (Opcode.ofTag? tag).isSome = true := by
  unfold argumentCount? at h
  split at h
  all_goals first | decide | cases h

/-- The table knows the tags of the opcodes and no other word. -/
theorem argumentCount?_eq (tag : UInt32) :
    argumentCount? tag = (Opcode.ofTag? tag).map Opcode.operandCount := by
  cases hop : Opcode.ofTag? tag with
  | some op =>
    rw [← Opcode.ofTag?_eq_some_iff.1 hop, argumentCount?_tag, Option.map_some]
  | none =>
    cases hcount : argumentCount? tag with
    | none => rfl
    | some n =>
      have h : (Opcode.ofTag? tag).isSome = true := isSome_ofTag? (by rw [hcount]; rfl)
      rw [hop] at h
      cases h

theorem dispatch?_eq_some_iff {tag : UInt32} {op : Opcode} :
    dispatch? tag = some op ↔ op.tag = tag ∧ op ≠ .finish := by
  rw [dispatch?, Option.filter_eq_some_iff, Opcode.ofTag?_eq_some_iff, decide_eq_true_eq]

/-! ## Handlers -/

/-- Three words from an index on. -/
def wordsAt? (args : List UInt32) (i : Nat) : Option (Corners UInt32) := do
  return ⟨← args[i]?, ← args[i + 1]?, ← args[i + 2]?⟩

/-- The texture in the first words of a textured triangle. -/
def textureOf? (args : List UInt32) : Option Texture := do
  return ⟨← args[0]?, ← args[1]?, ← args[2]?, ← args[3]?⟩

/-- A vertex with a texture coordinate in the words from an index on. -/
def texturedAt? (args : List UInt32) (i : Nat) : Option Vertex := do
  return .textured (← args[i]?).toInt32 (← args[i + 1]?).toInt32 (← args[i + 2]?).toInt32
    (← args[i + 3]?).toInt32

/-- The vertices in the first words of a textured triangle. -/
def coordsOf? (args : List UInt32) : Option (Corners Vertex) := do
  return ⟨← texturedAt? args 4, ← texturedAt? args 8, ← texturedAt? args 12⟩

/-- A vertex without a texture coordinate in the words from an index on. -/
def positionAt? (args : List UInt32) (i : Nat) : Option Vertex := do
  return .position (← args[i]?).toInt32 (← args[i + 1]?).toInt32

/-- What the handler of an opcode makes of the words that were fetched for it. -/
def command? (op : Opcode) (args : List UInt32) : Option Command :=
  match op with
  | .finish => none
  | .gradient => do return .gradient (← args[0]?).toUInt16 (← args[1]?).toUInt16
  | .tiles => do
    let packed ← args[1]?
    return .tiles (← args[0]?) (packed >>> 24).toUInt8 (packed >>> 16).toUInt8 packed.toUInt16
  | .setTable => do return .setTable (← args[0]?) (← args[1]?)
  | .setBank => do return .setBank ((← args[0]?) &&& 0xF).toUInt8
  | .setAddressMode => do
    let modes ← args[0]?
    return .setAddressMode (.ofBits modes) (.ofBits (modes >>> 4))
  | .setFilter => do return .setFilter (.ofBits (← args[0]?))
  | .setBlendSwitch => do return .setBlendSwitch ((← args[0]?) != 0)
  | .setBlend => do return .setBlend (.ofBits (← args[0]?))
  | .setScissor => do
    return .setScissor ⟨(← args[0]?).toInt32, (← args[1]?).toInt32, (← args[2]?).toInt32,
      (← args[3]?).toInt32⟩
  | .setPrimColor => do return .setPrimColor (← args[0]?).toUInt16
  | .setEnvColor => do return .setEnvColor (← args[0]?).toUInt16
  | .setCombine => do return .setCombine (.ofBits (← args[0]?))
  | .setDepthEnabled => do return .setDepthEnabled ((← args[0]?) &&& 1 != 0)
  | .setDepthBuffer => do return .setDepthBuffer ⟨← args[0]?, ← args[1]?, ← args[2]?⟩
  | .clearDepth => do return .clearDepth (← args[0]?).toUInt16
  | .solidTriangle => do
    return .solidTriangle ⟨← positionAt? args 0, ← positionAt? args 2, ← positionAt? args 4⟩
  | .solidTriangleDepth => do
    let v : Corners Vertex := ⟨← positionAt? args 0, ← positionAt? args 3, ← positionAt? args 6⟩
    return .solidTriangleDepth (withDepths v ⟨← args[2]?, ← args[5]?, ← args[8]?⟩)
  | .rect format => do
    return .rect ⟨format, ← args[2]?, ← args[0]?, ← args[1]?, (← args[3]?).toInt32,
      (← args[4]?).toInt32⟩
  | .texTriangle format .affine => do
    return .texTriangle format .affine (← textureOf? args) (← coordsOf? args)
  | .texTriangle format .perspective => do
    return .texTriangle format .perspective (← textureOf? args)
      (withWeights (← coordsOf? args) (← wordsAt? args 16))
  | .texTriangleDepth .affine => do
    return .texTriangleDepth .affine (← textureOf? args)
      (withDepths (← coordsOf? args) (← wordsAt? args 16))
  | .texTriangleDepth .perspective => do
    return .texTriangleDepth .perspective (← textureOf? args)
      (withDepths (withWeights (← coordsOf? args) (← wordsAt? args 16)) (← wordsAt? args 19))

section

variable {n : Nat}

theorem getElem?_toList (w : Vector UInt32 n) {i : Nat} (h : i < n) : w.toList[i]? = some w[i] := by
  rw [List.getElem?_eq_getElem (by rwa [Vector.length_toList]), Vector.getElem_toList]

theorem wordsAt?_eq (w : Vector UInt32 n) {i : Nat} (h : i + 2 < n) :
    wordsAt? w.toList i = some ⟨w[i], w[i + 1], w[i + 2]⟩ := by
  simp (disch := omega) only [wordsAt?, getElem?_toList, Option.bind_eq_bind, Option.bind_some,
    Option.pure_def]

theorem textureOf?_eq (w : Vector UInt32 (16 + n)) : textureOf? w.toList = some (textureOf w) := by
  simp (disch := omega) only [textureOf?, getElem?_toList, Option.bind_eq_bind, Option.bind_some,
    Option.pure_def, textureOf]

theorem coordsOf?_eq (w : Vector UInt32 (16 + n)) : coordsOf? w.toList = some (coordsOf w) := by
  simp (disch := omega) only [coordsOf?, texturedAt?, getElem?_toList, Option.bind_eq_bind,
    Option.bind_some, Option.pure_def, coordsOf]

end

/-- **A handler looks at no other words than those of its opcode.** -/
theorem command?_eq {op : Opcode} (hop : op ≠ .finish) (w : Vector UInt32 op.operandCount) :
    command? op w.toList = some (command op w) := by
  revert w
  -- the lemmas about words need the count as a number, which depends on no format
  cases op with
  | finish => exact absurd rfl hop
  | rect format =>
    change ∀ w : Vector UInt32 5, command? (.rect format) w.toList = _
    intro w
    simp (disch := decide) only [command?, getElem?_toList, Option.bind_eq_bind, Option.bind_some,
      Option.pure_def]
    rfl
  | texTriangle format projection =>
    cases projection with
    | affine =>
      change ∀ w : Vector UInt32 (16 + 0), command? (.texTriangle format .affine) w.toList = _
      intro w
      simp only [command?, textureOf?_eq, coordsOf?_eq, Option.bind_eq_bind, Option.bind_some,
        Option.pure_def]
      rfl
    | perspective =>
      change ∀ w : Vector UInt32 (16 + 3), command? (.texTriangle format .perspective) w.toList = _
      intro w
      simp (disch := decide) only [command?, textureOf?_eq, coordsOf?_eq, wordsAt?_eq,
        Option.bind_eq_bind, Option.bind_some, Option.pure_def]
      rfl
  | texTriangleDepth projection =>
    cases projection with
    | affine =>
      change ∀ w : Vector UInt32 (16 + 3), command? (.texTriangleDepth .affine) w.toList = _
      intro w
      simp (disch := decide) only [command?, textureOf?_eq, coordsOf?_eq, wordsAt?_eq,
        Option.bind_eq_bind, Option.bind_some, Option.pure_def]
      rfl
    | perspective =>
      change ∀ w : Vector UInt32 (16 + 6), command? (.texTriangleDepth .perspective) w.toList = _
      intro w
      simp (disch := decide) only [command?, textureOf?_eq, coordsOf?_eq, wordsAt?_eq,
        Option.bind_eq_bind, Option.bind_some, Option.pure_def]
      rfl
  | _ =>
    intro w
    simp (disch := decide) only [command?, positionAt?, getElem?_toList, Option.bind_eq_bind,
      Option.bind_some, Option.pure_def]
    rfl

/-! ## Runs -/

variable {μ : Type} [Memory μ]

/-- The command at a place in a stream, and the place after it. -/
def fetch? (m : μ) (cursor : Cursor) : Option (Except Halt (Command × Cursor)) :=
  if cursor.budget = 0 then some (.error .budget)
  else
    match Memory.read32 m cursor.addr with
    | .error _ => some (.error (.fault cursor.addr))
    | .ok tag =>
      if tag = Opcode.tag .finish then some (.error .finished)
      else
        match dispatch? tag with
        | none => some (.error (.unknownOpcode tag))
        | some op =>
          (argumentCount? tag).bind fun count ↦
            if bufferSize < count then none
            else if cursor.budget < 1 + count then some (.error .budget)
            else
              match readWords m (cursor.addr + 4) count with
              | .error addr => some (.error (.fault addr))
              | .ok args =>
                (command? op args.toList).map fun c ↦
                  .ok (c, ⟨cursor.addr + 4 * UInt32.ofNat (1 + count), cursor.budget - (1 + count)⟩)

/-- Run at most `fuel` instructions. -/
def runFor? (fb : Framebuffer) :
    (fuel : Nat) → RenderState → μ → Cursor → Option (Outcome μ)
  | 0, st, m, _ => some ⟨.budget, st, m⟩
  | fuel + 1, st, m, cursor =>
    match fetch? m cursor with
    | none => none
    | some (.error halt) => some ⟨halt, st, m⟩
    | some (.ok (c, cursor)) =>
      match c.perform? fb st m with
      | none => none
      | some (st, m) => runFor? fb fuel st m cursor

/-- Run a stream from a state. -/
def run? (fb : Framebuffer) (st : RenderState) (m : μ) (cursor : Cursor) : Option (Outcome μ) :=
  runFor? fb cursor.budget st m cursor

/-- An instruction of an opcode other than the end is fetched with all its words or not at all. -/
theorem fetch_of_tag {m : μ} {cursor : Cursor} {tag : UInt32} {op : Opcode}
    (hbudget : cursor.budget ≠ 0) (hread : Memory.read32 m cursor.addr = .ok tag)
    (htag : Opcode.ofTag? tag = some op) (hop : op ≠ .finish) :
    fetch m cursor =
      if cursor.budget < 1 + op.operandCount then .error .budget
      else
        match readWords m (cursor.addr + 4) op.operandCount with
        | .error addr => .error (.fault addr)
        | .ok operands =>
          .ok (⟨op, operands⟩,
            ⟨cursor.addr + 4 * UInt32.ofNat (1 + op.operandCount),
              cursor.budget - (1 + op.operandCount)⟩) := by
  rw [fetch, if_neg hbudget, hread]
  dsimp only
  rw [htag]
  cases op with
  | finish => exact absurd rfl hop
  | _ => rfl

theorem fetch?_eq (m : μ) (cursor : Cursor) :
    fetch? m cursor = some ((fetch m cursor).map fun next ↦ (next.1.command, next.2)) := by
  by_cases hbudget : cursor.budget = 0
  · rw [fetch?, fetch, if_pos hbudget, if_pos hbudget]
    rfl
  cases hread : Memory.read32 m cursor.addr with
  | error fault =>
    simp only [fetch?, fetch, if_neg hbudget, hread]
    rfl
  | ok tag =>
    by_cases hfinish : tag = Opcode.tag .finish
    · subst hfinish
      simp only [fetch?, fetch, if_neg hbudget, hread]
      rfl
    cases htag : Opcode.ofTag? tag with
    | none =>
      simp only [fetch?, fetch, if_neg hbudget, hread, if_neg hfinish, dispatch?, htag]
      rfl
    | some op =>
      have htag' : op.tag = tag := Opcode.ofTag?_eq_some_iff.1 htag
      have hop : op ≠ .finish := fun h ↦ hfinish (htag'.symm.trans (congrArg Opcode.tag h))
      have hdispatch : dispatch? tag = some op := dispatch?_eq_some_iff.2 ⟨htag', hop⟩
      have hsize : ¬ bufferSize < op.operandCount := Nat.not_lt.2 op.operandCount_le
      rw [fetch_of_tag hbudget hread htag hop]
      simp only [fetch?, if_neg hbudget, hread, if_neg hfinish, hdispatch, argumentCount?_eq, htag,
        Option.map_some, Option.bind_some, if_neg hsize]
      split
      · rfl
      · cases readWords m (cursor.addr + 4) op.operandCount with
        | error addr => rfl
        | ok words =>
          simp only [command?_eq hop]
          rfl

/-- A run of any length has a result, and no check on the way fails. -/
theorem runFor?_eq {fb : Framebuffer} (hfb : fb.Signed) (fuel : Nat) (st : RenderState) (m : μ)
    (cursor : Cursor) : runFor? fb fuel st m cursor = some (runFor fb fuel st m cursor) := by
  induction fuel generalizing st m cursor with
  | zero => rfl
  | succ fuel ih =>
    rw [runFor?, fetch?_eq, runFor]
    cases fetch m cursor with
    | error halt => rfl
    | ok next =>
      simp only [Except.map, Command.perform?_eq hfb]
      exact ih _ _ next.2

/-- **Interpretation is safe on arbitrary streams.**  On a framebuffer whose sides are signed words
the checked interpreter has the result of the interpreter, whatever memory, start and budget are,
and a word has a handler iff it is a tag other than the end, for operands that fit the buffer. -/
theorem run?_eq {fb : Framebuffer} (hfb : fb.Signed) (st : RenderState) (m : μ) (start : UInt32)
    (budget : Nat) :
    run? fb st m ⟨start, budget⟩ = some (run fb st m ⟨start, budget⟩) ∧
      ∀ tag : UInt32,
        ((dispatch? tag).isSome = true ↔
          (argumentCount? tag).isSome = true ∧ tag ≠ Opcode.tag .finish) ∧
        ∀ count ∈ argumentCount? tag, count ≤ bufferSize := by
  refine ⟨runFor?_eq hfb budget st m ⟨start, budget⟩, fun tag ↦ ⟨?_, fun count hcount ↦ ?_⟩⟩
  · rw [argumentCount?_eq, Option.isSome_map, Option.isSome_iff_exists, Option.isSome_iff_exists]
    simp only [dispatch?_eq_some_iff, Opcode.ofTag?_eq_some_iff]
    constructor
    · rintro ⟨op, rfl, hop⟩
      exact ⟨⟨op, rfl⟩, fun h ↦ hop (Opcode.tag_injective h)⟩
    · rintro ⟨⟨op, rfl⟩, hne⟩
      exact ⟨op, rfl, fun h ↦ hne (congrArg Opcode.tag h)⟩
  · rw [argumentCount?_eq, Option.mem_def] at hcount
    obtain ⟨op, -, rfl⟩ := Option.map_eq_some_iff.1 hcount
    exact op.operandCount_le

/-- A filtered texture in perspective, one corner of which has no weight. -/
theorem run?_eq_perspective :
    let fb : Framebuffer := ⟨256, 2, 2, 2⟩
    let st := RenderState.initial 2 2
    let m := (Memory.writeWords (Rdram.zeroed 512) 0
      [0x20, 10, 1, 0x25, 1, 0x43, 208, 1, 1, 1, 0, 0, 0, 0, 2, 0, 1, 0, 0, 2, 0, 1,
        0x10000, 0, 0x10000]).memory
    run? fb st m ⟨0, 32⟩ = some (run fb st m ⟨0, 32⟩) ∧
      (run fb st m ⟨0, 32⟩).memory.byte 257 = 1 ∧
      dispatch? 0x43 = some (.texTriangle .ci8 .perspective) ∧ argumentCount? 0x43 = some 19 := by
  intro fb st m
  have hfb : fb.Signed := ⟨by decide, by decide⟩
  exact ⟨(run?_eq hfb st m 0 32).1, by decide +kernel, by decide, by decide⟩

end Stream

end DisplayRaster
