import DisplayRaster.Proofs.Memory.Words
import DisplayRaster.Stream.Encode
import DisplayRaster.Stream.Interpreter

/-!
# Encoding against decoding

Encoding a command and decoding its words gives the command back, except for what its opcode has no
place for: a vertex loses the attributes that the opcode does not carry, and the number of a bank
its high bits.  `Command.carried` is what is left, and `Command.command_operandVector` is the round
trip.  `Stream.fetch_of_holds` finds an encoded command in memory.
-/

set_option autoImplicit false

namespace DisplayRaster

/-! ## One command -/

theorem Stream.command_tiles (addr w : UInt32) :
    command .tiles #v[addr, w] = .tiles addr (w >>> 24).toUInt8 (w >>> 16).toUInt8 w.toUInt16 :=
  rfl

namespace Command

/-- A command with nothing but what its opcode carries. -/
def carried : Command → Command
  | .setBank bank => .setBank (bank &&& 0xF)
  | .solidTriangle v => .solidTriangle (v.map fun v ↦ .position v.x v.y)
  | .solidTriangleDepth v =>
    .solidTriangleDepth (v.map fun v ↦ { Vertex.position v.x v.y with z := v.z })
  | .texTriangle format .affine texture v =>
    .texTriangle format .affine texture (v.map fun v ↦ .textured v.x v.y v.s v.t)
  | .texTriangle format .perspective texture v =>
    .texTriangle format .perspective texture
      (v.map fun v ↦ { Vertex.textured v.x v.y v.s v.t with q := v.q })
  | .texTriangleDepth .affine texture v =>
    .texTriangleDepth .affine texture
      (v.map fun v ↦ { Vertex.textured v.x v.y v.s v.t with z := v.z })
  | c => c

/-- The operand words of a command, as many as its opcode has. -/
def operandVector (c : Command) : Vector UInt32 c.opcode.operandCount :=
  ⟨c.operands.toArray, by rw [List.size_toArray, length_operands]⟩

/-- The three fields of the second operand of a tile grid are apart. -/
theorem toNat_tilesWord (size spacing : UInt8) (offset : UInt16) :
    ((size.toUInt32 <<< 24) ||| (spacing.toUInt32 <<< 16) ||| offset.toUInt32).toNat =
      size.toNat * 2 ^ 24 + spacing.toNat * 2 ^ 16 + offset.toNat := by
  have hsize := size.toNat_lt
  have hspacing := spacing.toNat_lt
  have hoffset := offset.toNat_lt
  have hlow : ((spacing.toUInt32 <<< 16) ||| offset.toUInt32).toNat =
      spacing.toNat * 2 ^ 16 + offset.toNat :=
    Field.toNat_shiftLeft_or rfl (by omega) (by rw [UInt8.toNat_toUInt32]; omega) hoffset
  rw [UInt32.or_assoc, Field.toNat_shiftLeft_or (n := 24) rfl (by omega)
    (by rw [UInt8.toNat_toUInt32]; omega) (by omega), hlow, UInt8.toNat_toUInt32, Nat.add_assoc]

theorem fields_of_toNat {w : UInt32} {size spacing : UInt8} {offset : UInt16}
    (hw : w.toNat = size.toNat * 2 ^ 24 + spacing.toNat * 2 ^ 16 + offset.toNat) :
    (w >>> 24).toUInt8 = size ∧ (w >>> 16).toUInt8 = spacing ∧ w.toUInt16 = offset := by
  have hsize := size.toNat_lt
  have hspacing := spacing.toNat_lt
  have hoffset := offset.toNat_lt
  refine ⟨UInt8.toNat_inj.1 ?_, UInt8.toNat_inj.1 ?_, UInt16.toNat_inj.1 ?_⟩
  · rw [UInt32.toNat_toUInt8, Field.toNat_shiftRight (n := 24) rfl (by omega), hw]
    omega
  · rw [UInt32.toNat_toUInt8, Field.toNat_shiftRight (n := 16) rfl (by omega), hw]
    omega
  · rw [UInt32.toNat_toUInt16, hw]
    omega

/-- Depths come back from their words. -/
theorem withDepths_toUInt32 (v : Corners Vertex) (z : Corners UInt16) :
    Stream.withDepths v (z.map UInt16.toUInt32) = v.zipWith (fun v z ↦ { v with z := z }) z := by
  simp [Stream.withDepths, Corners.zipWith, Corners.map]

/-- **Decoding inverts encoding**, up to what the opcode carries. -/
theorem command_operandVector (c : Command) :
    Stream.command c.opcode c.operandVector = c.carried := by
  cases c with
  | finish | setTable | setDepthBuffer | rect | solidTriangle => rfl
  | setBlendSwitch enabled | setDepthEnabled enabled => cases enabled <;> rfl
  | gradient left right =>
    show Command.gradient left.toUInt32.toUInt16 right.toUInt32.toUInt16 = .gradient left right
    rw [left.toUInt16_toUInt32, right.toUInt16_toUInt32]
  | tiles addr size spacing offset =>
    obtain ⟨h₁, h₂, h₃⟩ := fields_of_toNat (toNat_tilesWord size spacing offset)
    show Stream.command .tiles #v[addr, _] = tiles addr size spacing offset
    rw [Stream.command_tiles, h₁, h₂, h₃]
  | setBank bank =>
    show Command.setBank (bank.toUInt32 &&& 0xF).toUInt8 = .setBank (bank &&& 0xF)
    simp
  | setAddressMode s t => cases s <;> cases t <;> rfl
  | setFilter filter => exact congrArg setFilter filter.ofBits_toBits
  | setBlend mode => exact congrArg setBlend mode.ofBits_toBits
  | setCombine mode => exact congrArg setCombine mode.ofBits_toBits
  | setScissor r =>
    show setScissor ⟨r.x0.toUInt32.toInt32, r.y0.toUInt32.toInt32, r.x1.toUInt32.toInt32,
      r.y1.toUInt32.toInt32⟩ = .setScissor r
    simp
  | setPrimColor color => exact congrArg setPrimColor color.toUInt16_toUInt32
  | setEnvColor color => exact congrArg setEnvColor color.toUInt16_toUInt32
  | clearDepth value => exact congrArg clearDepth value.toUInt16_toUInt32
  | solidTriangleDepth v =>
    have h := withDepths_toUInt32 (v.map fun v ↦ .position v.x v.y) (v.map Vertex.z)
    exact congrArg solidTriangleDepth h
  | texTriangle format projection texture v => cases projection <;> rfl
  | texTriangleDepth projection texture v =>
    cases projection with
    | affine =>
      have h := withDepths_toUInt32 (v.map fun v ↦ .textured v.x v.y v.s v.t) (v.map Vertex.z)
      exact congrArg (texTriangleDepth .affine texture) h
    | perspective =>
      have h := withDepths_toUInt32
        (v.map fun v ↦ { Vertex.textured v.x v.y v.s v.t with q := v.q }) (v.map Vertex.z)
      exact congrArg (texTriangleDepth .perspective texture) h

theorem carried_eq_setDepthBuffer {c : Command} {z : DepthBuffer} :
    c.carried = .setDepthBuffer z ↔ c = .setDepthBuffer z := by
  cases c with
  | texTriangle format projection texture v => cases projection <;> simp [carried]
  | texTriangleDepth projection texture v => cases projection <;> simp [carried]
  | _ => simp [carried]

theorem opcode_eq_finish {c : Command} : c.opcode = .finish ↔ c = .finish := by
  cases c <;> simp [opcode]

theorem length_words (c : Command) : c.words.length = 1 + c.opcode.operandCount := by
  rw [words, List.length_cons, length_operands, Nat.add_comm]

end Command

/-! ## Lists of commands -/

namespace Stream

theorem encode_nil : encode [] = [Opcode.tag .finish] := rfl

/-- A stream begins with the words of its first command. -/
theorem encode_cons {c : Command} (hc : c ≠ .finish) (cs : List Command) :
    encode (c :: cs) = c.words ++ encode cs := by
  cases cs with
  | nil => simp [encode, isFinished, hc]
  | cons d ds => 
    have h : isFinished (c :: d :: ds) = isFinished (d :: ds) := rfl
    simp only [encode, h, List.flatMap_cons]
    split
    · rfl
    · simp only [List.append_assoc]

/-- A stream that begins with the end command. -/
theorem encode_finish (cs : List Command) :
    ∃ ws, encode (.finish :: cs) = Opcode.tag .finish :: ws := by
  rw [encode]
  split
  · exact ⟨_, rfl⟩
  · exact ⟨_, rfl⟩

theorem encode_ne_nil (cs : List Command) : encode cs ≠ [] := by
  cases cs with
  | nil => simp [encode_nil]
  | cons c cs =>
    by_cases hc : c = .finish
    · subst hc
      obtain ⟨ws, hws⟩ := encode_finish cs
      rw [hws]
      exact List.cons_ne_nil _ _
    · rw [encode_cons hc, Command.words]
      exact List.cons_ne_nil _ _

/-- The length of a stream. -/
theorem length_encode (cs : List Command) :
    (encode cs).length =
      (cs.map fun c ↦ 1 + c.opcode.operandCount).sum + if isFinished cs then 0 else 1 := by
  have h : (cs.flatMap Command.words).length =
      (cs.map fun c ↦ 1 + c.opcode.operandCount).sum := by
    simp only [List.length_flatMap, Command.length_words]
  rw [encode, ← h]
  split
  · rfl
  · rw [List.length_append]; rfl

/-! ## Fetching -/

variable {μ : Type} [Memory μ] {m : μ}

theorem readWords_of_holds {addr : UInt32} {n : Nat} {v : Vector UInt32 n}
    (h : Memory.Holds m addr v.toList) : readWords m addr n = .ok v := by
  induction n with
  | zero => exact congrArg Except.ok Vector.eq_empty.symm
  | succ n ih =>
    obtain ⟨w, x, rfl⟩ : ∃ (w : Vector UInt32 n) (x : UInt32), v = w.push x :=
      ⟨v.pop, v.back, v.push_pop_back.symm⟩
    rw [Vector.toList_push, Memory.holds_append, Vector.length_toList] at h
    obtain ⟨hw, hx, -⟩ := h
    rw [readWords, ih hw]
    simp only [hx]

/-- A command that memory holds is fetched, and the cursor moves past it. -/
theorem fetch_of_holds {c : Command} (hc : c ≠ .finish) {addr : UInt32} {budget : Nat}
    (h : Memory.Holds m addr c.words) (hb : c.words.length ≤ budget) :
    fetch m ⟨addr, budget⟩ = .ok (⟨c.opcode, c.operandVector⟩,
      ⟨addr + 4 * UInt32.ofNat c.words.length, budget - c.words.length⟩) := by
  have hop : c.opcode ≠ .finish := fun h ↦ hc (Command.opcode_eq_finish.1 h)
  rw [c.length_words] at hb ⊢
  obtain ⟨htag, hoperands⟩ := h
  rw [fetch, if_neg (by simp; omega)]
  simp only [htag, Opcode.ofTag?_tag]
  rw [if_neg (by omega), readWords_of_holds (v := c.operandVector) hoperands]

theorem fetch_of_holds_finish {addr : UInt32} {ws : List UInt32} {budget : Nat}
    (h : Memory.Holds m addr (Opcode.tag .finish :: ws)) (hb : budget ≠ 0) :
    fetch m ⟨addr, budget⟩ = .error .finished := by
  rw [fetch, if_neg hb]
  simp only [h.1, Opcode.ofTag?_tag]

end Stream

end DisplayRaster
