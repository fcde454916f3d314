import DisplayRaster.Proofs.Stream.Codec
import Mathlib.Data.Set.Function

/-!
# Streams that can be told apart

A stream says all that there is to say about the commands it was made from, except for what no
stream can say: that the last end command was left out, and which vertex attributes the commands had
that their opcodes have no place for.  `Stream.normalForm` settles both, and two lists of commands
have the same stream iff they have the same normal form (`Stream.encode_eq_encode_iff`).

The words of commands are a prefix code: a tag belongs to one opcode, and the opcode says how many
operands follow.  So two streams that are the same are cut into commands at the same places
(`Command.words_append_inj`), whatever the commands are.
-/

set_option autoImplicit false

namespace DisplayRaster

namespace Command

/-! ## One command -/

/-- A command without the vertex attributes that its opcode does not carry.  Its words keep
everything else, also the high bits of a bank, which are lost only when the words are decoded. -/
def normal : Command → Command
  | .setBank bank => .setBank bank
  | c => c.carried

/-- The words of a command do not show what its normal form lacks. -/
theorem words_normal (c : Command) : c.normal.words = c.words := by
  cases c with
  | texTriangle format projection texture v => cases projection <;> rfl
  | texTriangleDepth projection texture v => cases projection <;> rfl
  | _ => rfl

theorem normal_normal (c : Command) : c.normal.normal = c.normal := by
  cases c with
  | texTriangle format projection texture v => cases projection <;> rfl
  | texTriangleDepth projection texture v => cases projection <;> rfl
  | _ => rfl

/-- Commands with the same opcode and operands decode to the same command. -/
theorem carried_eq_of_operands_eq {c d : Command} (hop : c.opcode = d.opcode)
    (hoperands : c.operands = d.operands) : c.carried = d.carried := by
  have hcommand {op op' : Stream.Opcode} (hop : op = op') {w : Vector UInt32 op.operandCount}
      {w' : Vector UInt32 op'.operandCount} (hw : w.toList = w'.toList) :
      Stream.command op w = Stream.command op' w' := by
    subst hop
    rw [Vector.toList_inj.1 hw]
  rw [← command_operandVector, ← command_operandVector]
  exact hcommand hop hoperands

/-- The words of a command determine its normal form. -/
theorem normal_eq_of_words_eq {c d : Command} (h : c.words = d.words) : c.normal = d.normal := by
  obtain ⟨htag, hoperands⟩ := List.cons.inj h
  have hop := Stream.Opcode.tag_injective htag
  have hcarried := carried_eq_of_operands_eq hop hoperands
  cases c with
  | setBank bank =>
    -- decoding masks the bank, so this is the one command whose operand says more
    cases d with
    | setBank bank' =>
      have hbank := UInt8.toUInt32_inj.1 (List.cons.inj hoperands).1
      rw [hbank]
    | _ => cases hop
  | _ =>
    cases d with
    | setBank bank' => cases hop
    | _ => exact hcarried

/-- **Words are a prefix code**: where the words of one command end is known from the words. -/
theorem words_append_inj {c d : Command} {us vs : List UInt32}
    (h : c.words ++ us = d.words ++ vs) : c.words = d.words ∧ us = vs := by
  have htag : c.opcode.tag = d.opcode.tag := (List.cons.inj h).1
  have hlength : c.words.length = d.words.length := by
    rw [length_words, length_words, Stream.Opcode.tag_injective htag]
  exact List.append_inj h hlength

end Command

/-! ## Lists of commands -/

namespace Stream

/-- A list of commands, ended by the end command and without the vertex attributes that the opcodes
do not carry. -/
def normalForm (cs : List Command) : List Command :=
  (if isFinished cs then cs else cs ++ [.finish]).map Command.normal

theorem isFinished_normalForm (cs : List Command) : isFinished (normalForm cs) = true := by
  have hlast : (if isFinished cs then cs else cs ++ [.finish]).getLast? = some .finish := by
    split
    · next h => exact of_decide_eq_true h
    · exact List.getLast?_concat
  rw [isFinished, normalForm, List.getLast?_map, hlast]
  rfl

theorem map_normal_normalForm (cs : List Command) :
    (normalForm cs).map Command.normal = normalForm cs := by
  rw [normalForm, List.map_map]
  exact List.map_congr_left fun c _ ↦ c.normal_normal

/-- A normal form is its own normal form. -/
theorem normalForm_normalForm (cs : List Command) : normalForm (normalForm cs) = normalForm cs := by
  rw [normalForm, if_pos (isFinished_normalForm cs)]
  exact map_normal_normalForm cs

/-- Commands and their normal forms have the same words. -/
theorem flatMap_words_normal (cs : List Command) :
    (cs.map Command.normal).flatMap Command.words = cs.flatMap Command.words := by
  rw [List.flatMap_map]
  exact congrArg List.flatten (List.map_congr_left fun c _ ↦ c.words_normal)

/-- A stream is the words of the normal form. -/
theorem encode_eq_flatMap (cs : List Command) :
    encode cs = (normalForm cs).flatMap Command.words := by
  rw [normalForm, flatMap_words_normal, encode]
  split
  · rfl
  · rw [List.flatMap_append]
    rfl

/-- The words of a list of commands determine the commands, one after another. -/
theorem map_normal_eq_of_flatMap_eq {cs ds : List Command}
    (h : cs.flatMap Command.words = ds.flatMap Command.words) :
    cs.map Command.normal = ds.map Command.normal := by
  induction cs generalizing ds with
  | nil =>
    cases ds with
    | nil => rfl
    | cons d ds => cases h
  | cons c cs ih =>
    cases ds with
    | nil => cases h
    | cons d ds =>
      obtain ⟨hwords, hrest⟩ := Command.words_append_inj h
      rw [List.map_cons, List.map_cons, Command.normal_eq_of_words_eq hwords, ih hrest]

/-- **A stream can be decoded in one way only.**  Two lists of commands have the same stream iff
they have the same normal form; so no two normal forms share a stream. -/
theorem encode_eq_encode_iff :
    (∀ a b : List Command, encode a = encode b ↔ normalForm a = normalForm b) ∧
      Set.InjOn encode {cs | normalForm cs = cs} := by
  have hiff (a b : List Command) : encode a = encode b ↔ normalForm a = normalForm b := by
    rw [encode_eq_flatMap, encode_eq_flatMap]
    constructor
    · intro h
      rw [← map_normal_normalForm a, ← map_normal_normalForm b]
      exact map_normal_eq_of_flatMap_eq h
    · intro h
      rw [h]
  refine ⟨hiff, fun a ha b hb h ↦ ?_⟩
  rw [← show normalForm a = a from ha, ← show normalForm b = b from hb]
  exact (hiff a b).1 h

/-- Commands after an end command are part of the stream, texture coordinates of a solid triangle
are not. -/
example :
    encode [.finish, .solidTriangle ⟨.textured (-1) 2 3 4, .position 5 (-6), .position 7 8⟩] =
      encode
        [.finish, .solidTriangle ⟨.position (-1) 2, .position 5 (-6), .position 7 8⟩, .finish] ∧
    encode [.finish, .setBank 3] ≠ encode [.finish, .setBank 0x13] := by
  decide

end Stream

end DisplayRaster
