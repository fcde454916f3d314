import DisplayRaster.DisplayList.Instruction
import DisplayRaster.Proofs.Memory.Fields

/-!
# Reading instructions back

Every function that builds an instruction is undone by `Instruction.operation`, for fields that are
not too wide.  The first word of an instruction is its opcode byte over 24 bits of fields
(`toNat_firstWord`), so a mask of the fields does not see the opcode.
-/

set_option autoImplicit false

namespace DisplayRaster

namespace DisplayList

/-- A box whose coordinates have twelve bits. -/
structure Box.Narrow (c : Box) : Prop where
  ulx_lt : c.ulx.toNat < 2 ^ 12
  uly_lt : c.uly.toNat < 2 ^ 12
  lrx_lt : c.lrx.toNat < 2 ^ 12
  lry_lt : c.lry.toNat < 2 ^ 12

namespace Instruction

/-! ## The first word -/

theorem toNat_firstWord (code : Code) (fields : UInt32) :
    (firstWord code fields).toNat = code.byte.toNat * 2 ^ 24 + fields.toNat % 2 ^ 24 := by
  have hbyte := code.byte.toNat_lt
  have hmask : (fields &&& 0x00FFFFFF).toNat = fields.toNat % 2 ^ 24 :=
    Field.toNat_mask (n := 24) rfl
  rw [firstWord, Field.toNat_shiftLeft_or (n := 24) rfl (by omega), UInt8.toNat_toUInt32, hmask]
  · rw [UInt8.toNat_toUInt32]
    omega
  · rw [hmask]
    omega

theorem code?_firstWord (code : Code) (fields w1 : UInt32) :
    code? ⟨firstWord code fields, w1⟩ = some code := by
  have hbyte := code.byte.toNat_lt
  have h : (firstWord code fields >>> 24).toUInt8 = code.byte := by
    apply UInt8.toNat_inj.1
    rw [UInt32.toNat_toUInt8, Field.toNat_shiftRight (n := 24) rfl (by omega), toNat_firstWord]
    omega
  rw [code?, h, Code.ofByte?_byte]

theorem operation_firstWord (code : Code) (fields w1 : UInt32) :
    operation ⟨firstWord code fields, w1⟩ = operationOf ⟨firstWord code fields, w1⟩ code := by
  rw [operation, code?_firstWord]

/-- A mask of the fields does not see the opcode. -/
theorem firstWord_mask {mask : UInt32} {n : Nat} (hmask : mask.toNat = 2 ^ n - 1) (hn : n ≤ 24)
    (code : Code) (fields : UInt32) : firstWord code fields &&& mask = fields &&& mask := by
  apply UInt32.toNat_inj.1
  have hdvd : 2 ^ n ∣ 2 ^ 24 := Nat.pow_dvd_pow 2 hn
  rw [Field.toNat_mask hmask, Field.toNat_mask hmask, toNat_firstWord, Nat.add_mod,
    Nat.mod_mod_of_dvd _ hdvd, Nat.mod_eq_zero_of_dvd (Nat.dvd_mul_left_of_dvd hdvd _),
    Nat.zero_add, Nat.mod_mod]

/-! ## Pairs of fields -/

theorem toNat_fieldPair {high low : UInt32} (hhigh : high.toNat < 2 ^ 12)
    (hlow : low.toNat < 2 ^ 12) :
    (fieldPair high low).toNat = high.toNat * 2 ^ 12 + low.toNat := by
  rw [fieldPair, Field.mask_eq_self (n := 12) rfl hhigh, Field.mask_eq_self (n := 12) rfl hlow,
    Field.toNat_shiftLeft_or (n := 12) rfl (by omega) (by omega) hlow]

/-- A pair of fields is read back from its own word and from a first word. -/
theorem fields_of_toNat {w high low : UInt32} {k : Nat} (hhigh : high.toNat < 2 ^ 12)
    (hlow : low.toNat < 2 ^ 12)
    (hw : w.toNat = k * 2 ^ 24 + (high.toNat * 2 ^ 12 + low.toNat)) :
    highField w = high ∧ lowField w = low := by
  constructor
  · apply UInt32.toNat_inj.1
    rw [highField, Field.toNat_mask (n := 12) rfl, Field.toNat_shiftRight (n := 12) rfl (by omega),
      hw]
    omega
  · apply UInt32.toNat_inj.1
    rw [lowField, Field.toNat_mask (n := 12) rfl, hw]
    omega

theorem fields_fieldPair {high low : UInt32} (hhigh : high.toNat < 2 ^ 12)
    (hlow : low.toNat < 2 ^ 12) :
    highField (fieldPair high low) = high ∧ lowField (fieldPair high low) = low := by
  apply fields_of_toNat (k := 0) hhigh hlow
  rw [toNat_fieldPair hhigh hlow]
  omega

theorem fields_firstWord {high low : UInt32} (hhigh : high.toNat < 2 ^ 12)
    (hlow : low.toNat < 2 ^ 12) (code : Code) :
    highField (firstWord code (fieldPair high low)) = high ∧
      lowField (firstWord code (fieldPair high low)) = low := by
  apply fields_of_toNat hhigh hlow
  rw [toNat_firstWord, toNat_fieldPair hhigh hlow, Nat.mod_eq_of_lt (by omega)]

/-- A box is read back from the words of its two corners. -/
theorem boxOf_eq {c : Box} {upperLeft lowerRight : UInt32}
    (hul : highField upperLeft = c.ulx ∧ lowField upperLeft = c.uly)
    (hlr : highField lowerRight = c.lrx ∧ lowField lowerRight = c.lry) :
    boxOf upperLeft lowerRight = c := by
  rw [boxOf, hul.1, hul.2, hlr.1, hlr.2]

/-! ## Operations

An opcode is a constructor, so `operationOf` computes to the operation by its definition; what is
left to prove is that the fields are read back.
-/

theorem operation_endList : operation endList = .endList := by
  rw [endList, operation_firstWord]
  rfl

theorem operation_branch (addr : UInt32) : operation (branch addr) = .jump false addr := by
  have hlink : firstWord .jump 0 &&& 1 = 0 &&& 1 := firstWord_mask (n := 1) rfl (by omega) _ _
  rw [branch, operation_firstWord]
  exact congrArg (Operation.jump · addr) (congrArg (· != 0) hlink)

theorem operation_setTileSize {c : Box} (h : c.Narrow) :
    operation (setTileSize c) = .setTileSize c := by
  rw [setTileSize, operation_firstWord]
  exact congrArg Operation.setTileSize
    (boxOf_eq (fields_firstWord h.ulx_lt h.uly_lt _) (fields_fieldPair h.lrx_lt h.lry_lt))

theorem operation_setScissor {c : Box} (h : c.Narrow) :
    operation (setScissor c) = .setScissor c := by
  rw [setScissor, operation_firstWord]
  exact congrArg Operation.setScissor
    (boxOf_eq (fields_firstWord h.ulx_lt h.uly_lt _) (fields_fieldPair h.lrx_lt h.lry_lt))

theorem operation_textureRectangle {c : Box} (h : c.Narrow) :
    operation (textureRectangle c) = .textureRectangle c := by
  rw [textureRectangle, operation_firstWord]
  exact congrArg Operation.textureRectangle
    (boxOf_eq (fields_fieldPair h.ulx_lt h.uly_lt) (fields_firstWord h.lrx_lt h.lry_lt _))

theorem operation_setDepthImage {width height : UInt32} (hwidth : width.toNat < 2 ^ 12)
    (hheight : height.toNat < 2 ^ 12) (addr : UInt32) :
    operation (setDepthImage width height addr) = .setDepthImage width height addr := by
  obtain ⟨h₁, h₂⟩ := fields_firstWord hwidth hheight .setDepthImage
  rw [setDepthImage, operation_firstWord]
  exact congrArg₂ (Operation.setDepthImage · · addr) h₁ h₂

theorem operation_setPrimColor (color : UInt16) :
    operation (setPrimColor color) = .setPrimColor color := by
  rw [setPrimColor, operation_firstWord]
  exact congrArg Operation.setPrimColor (UInt16.toUInt16_toUInt32 color)

theorem operation_setEnvColor (color : UInt16) :
    operation (setEnvColor color) = .setEnvColor color := by
  rw [setEnvColor, operation_firstWord]
  exact congrArg Operation.setEnvColor (UInt16.toUInt16_toUInt32 color)

theorem operation_clearDepth (value : UInt16) :
    operation (clearDepth value) = .clearDepth value := by
  rw [clearDepth, operation_firstWord]
  exact congrArg Operation.clearDepth (UInt16.toUInt16_toUInt32 value)

theorem operation_setCombine (mode : CombineMode) :
    operation (setCombine mode) = .setCombine mode := by
  rw [setCombine, operation_firstWord]
  exact congrArg Operation.setCombine (CombineMode.ofBits_toBits mode)

theorem operation_setFilter (filter : TextureFilter) :
    operation (setFilter filter) = .setFilter filter := by
  rw [setFilter, operation_firstWord]
  cases filter <;> rfl

theorem operation_setBlend (mode : BlendMode) : operation (setBlend mode) = .setBlend mode := by
  rw [setBlend, operation_firstWord]
  cases mode <;> rfl

theorem operation_setDepthEnabled (enabled : Bool) :
    operation (setDepthEnabled enabled) = .setDepthEnabled enabled := by
  rw [setDepthEnabled, operation_firstWord]
  cases enabled <;> rfl

theorem toNat_lessOne {count : UInt32} (h : 1 ≤ count.toNat) :
    (lessOne count).toNat = count.toNat - 1 := by
  have hne : count ≠ 0 := by
    rintro rfl
    exact absurd h (by decide)
  have hle : (1 : UInt32) ≤ count := UInt32.le_iff_toNat_le.2 h
  rw [lessOne, if_neg hne, UInt32.toNat_sub_of_le _ _ hle]
  rfl

/-- Formats with a texel size of their own, and widths of one to 4096 texels. -/
theorem operation_setTextureImage {format : TexelFormat} {width : UInt32}
    (hformat : texelFormat? (texelSize format) = some format) (hwidth : 1 ≤ width.toNat)
    (hwidth' : width.toNat ≤ 4096) (addr : UInt32) :
    operation (setTextureImage format width addr) = .setTextureImage format width addr := by
  have hsize : (texelSize format).toNat < 2 ^ 2 := by cases format <;> decide
  have hless := toNat_lessOne hwidth
  have hmask : lessOne width &&& 0xFFF = lessOne width :=
    Field.mask_eq_self (n := 12) rfl (by omega)
  have hfields : ((texelSize format <<< 19) ||| lessOne width).toNat =
      (texelSize format).toNat * 2 ^ 19 + (width.toNat - 1) := by
    rw [Field.toNat_shiftLeft_or (n := 19) rfl (by omega) (by omega) (by omega), hless]
  rw [setTextureImage, operation_firstWord, operationOf, hmask]
  have hread : (firstWord .setTextureImage ((texelSize format <<< 19) ||| lessOne width) >>> 19) &&&
      3 = texelSize format := by
    apply UInt32.toNat_inj.1
    rw [Field.toNat_mask (n := 2) rfl, Field.toNat_shiftRight (n := 19) rfl (by omega),
      toNat_firstWord, hfields]
    omega
  have hcount : (firstWord .setTextureImage ((texelSize format <<< 19) ||| lessOne width) &&&
      0xFFF) + 1 = width := by
    apply UInt32.toNat_inj.1
    rw [firstWord_mask (n := 12) rfl (by omega), UInt32.toNat_add, Field.toNat_mask (n := 12) rfl,
      hfields]
    have h1 : (1 : UInt32).toNat = 1 := rfl
    have := width.toNat_lt
    omega
  rw [hread, hformat]
  simp only [hcount]

theorem operation_loadTable {count : UInt32} (hcount : 1 ≤ count.toNat)
    (hcount' : count.toNat ≤ 256) (addr : UInt32) :
    operation (loadTable count addr) = .loadTable count addr := by
  have hmask : count &&& 0x1FF = count := Field.mask_eq_self (n := 9) rfl (by omega)
  have hne : count ≠ 0 := by
    rintro rfl
    exact absurd hcount (by decide)
  have hle : count ≤ 256 := UInt32.le_iff_toNat_le.2 hcount'
  have hread : tableCount (firstWord .loadTable (count &&& 0x1FF) &&& 0x1FF) = count := by
    rw [firstWord_mask (n := 9) rfl (by omega), hmask, hmask, tableCount, if_neg hne]
    exact if_pos hle
  rw [loadTable, operation_firstWord]
  exact congrArg (Operation.loadTable · addr) hread

theorem operation_vertices (layout : VertexLayout) {count : UInt32} (hcount : 1 ≤ count.toNat)
    (hcount' : count.toNat ≤ 4096) (addr : UInt32) :
    operation (vertices layout count addr) = .vertices layout count.toNat addr := by
  have hless := toNat_lessOne hcount
  have hmask : lessOne count &&& 0xFFF = lessOne count :=
    Field.mask_eq_self (n := 12) rfl (by omega)
  have hread : (firstWord (.vertices layout) (lessOne count &&& 0xFFF) &&& 0xFFF).toNat + 1 =
      count.toNat := by
    rw [firstWord_mask (n := 12) rfl (by omega), hmask, hmask, hless, Nat.sub_add_cancel hcount]
  rw [vertices, operation_firstWord]
  exact congrArg (Operation.vertices layout · addr) hread

theorem toNat_slotField {slot : UInt8} (h : slot.toNat < 16) :
    (slotField slot).toNat = slot.toNat := by
  rw [slotField, UInt8.toNat_toUInt32, UInt8.toNat_and]
  exact (Nat.and_two_pow_sub_one_eq_mod _ 4).trans (Nat.mod_eq_of_lt h)

theorem operation_segment (id : Fin 16) (base : UInt32) :
    operation (segment (UInt8.ofNat id) base) = .segment id base := by
  have hid : (UInt8.ofNat id).toNat = id := by
    rw [UInt8.toNat_ofNat']
    omega
  have hfield : ((UInt8.ofNat id &&& 0xF).toUInt32).toNat = id :=
    (toNat_slotField (by omega)).trans hid
  have hread : (firstWord .segment (UInt8.ofNat id &&& 0xF).toUInt32).toNat % 16 = id := by
    rw [toNat_firstWord, hfield]
    omega
  rw [segment, operation_firstWord]
  exact congrArg (Operation.segment · base) (Fin.ext hread)

theorem operation_triangle (layout : VertexLayout) {a b c : UInt8} (ha : a.toNat < 16)
    (hb : b.toNat < 16) (hc : c.toNat < 16) :
    operation (triangle layout a b c) = .triangle layout ⟨a.toNat, b.toNat, c.toNat⟩ := by
  have ha' := toNat_slotField ha
  have hb' := toNat_slotField hb
  have hc' := toNat_slotField hc
  have hlow : ((slotField b <<< 4) ||| slotField a).toNat = b.toNat * 2 ^ 4 + a.toNat := by
    rw [Field.toNat_shiftLeft_or (n := 4) rfl (by omega) (by omega) (by omega), ha', hb']
  have hfields : (slotField a ||| (slotField b <<< 4) ||| (slotField c <<< 8)).toNat =
      c.toNat * 2 ^ 8 + (b.toNat * 2 ^ 4 + a.toNat) := by
    rw [UInt32.or_comm, UInt32.or_comm (slotField a),
      Field.toNat_shiftLeft_or (n := 8) rfl (by omega) (by omega) (by omega), hlow, hc']
  rw [triangle, operation_firstWord]
  generalize slotField a ||| (slotField b <<< 4) ||| (slotField c <<< 8) = fields at hfields
  have hreadA : (firstWord (.triangle layout) fields &&& 0xF).toNat = a.toNat := by
    rw [Field.toNat_mask (n := 4) rfl, toNat_firstWord, hfields]
    omega
  have hreadB : ((firstWord (.triangle layout) fields >>> 4) &&& 0xF).toNat = b.toNat := by
    rw [Field.toNat_mask (n := 4) rfl, Field.toNat_shiftRight (n := 4) rfl (by omega),
      toNat_firstWord, hfields]
    omega
  have hreadC : ((firstWord (.triangle layout) fields >>> 8) &&& 0xF).toNat = c.toNat := by
    rw [Field.toNat_mask (n := 4) rfl, Field.toNat_shiftRight (n := 8) rfl (by omega),
      toNat_firstWord, hfields]
    omega
  change Operation.triangle layout ⟨(firstWord (.triangle layout) fields &&& 0xF).toNat,
    ((firstWord (.triangle layout) fields >>> 4) &&& 0xF).toNat,
    ((firstWord (.triangle layout) fields >>> 8) &&& 0xF).toNat⟩ = _
  rw [hreadA, hreadB, hreadC]

theorem ofTileBits_of_mask {w : UInt32} {mode : AddressMode} (h : w &&& 3 = mode.toTileBits) :
    AddressMode.ofTileBits w = mode := by
  rw [AddressMode.ofTileBits, h]
  cases mode <;> rfl

theorem operation_setTile {bank : UInt8} (hbank : bank.toNat < 16) (s t : AddressMode) :
    operation (setTile bank s t) = .setTile bank s t := by
  have hs : s.toTileBits.toNat < 2 ^ 2 := by cases s <;> decide
  have ht : t.toTileBits.toNat < 2 ^ 2 := by cases t <;> decide
  have hword : (((bank &&& 0xF).toUInt32 <<< 20) ||| (t.toTileBits <<< 18) |||
      (s.toTileBits <<< 8)).toNat =
        bank.toNat * 2 ^ 20 + (t.toTileBits.toNat * 2 ^ 18 + s.toTileBits.toNat * 2 ^ 8) := by
    have hb : (bank &&& 0xF).toUInt32.toNat = bank.toNat := toNat_slotField hbank
    have hs' : (s.toTileBits <<< 8).toNat = s.toTileBits.toNat * 2 ^ 8 :=
      Field.toNat_shiftLeft rfl (by omega) (by omega)
    have ht' : ((t.toTileBits <<< 18) ||| (s.toTileBits <<< 8)).toNat =
        t.toTileBits.toNat * 2 ^ 18 + s.toTileBits.toNat * 2 ^ 8 := by
      rw [Field.toNat_shiftLeft_or (n := 18) rfl (by omega) (by omega) (by omega), hs']
    rw [UInt32.or_assoc, Field.toNat_shiftLeft_or (n := 20) rfl (by omega) (by omega) (by omega),
      ht', hb]
  rw [setTile, operation_firstWord]
  generalize ((bank &&& 0xF).toUInt32 <<< 20) ||| (t.toTileBits <<< 18) |||
      (s.toTileBits <<< 8) = w at hword
  have hbank' : ((w >>> 20) &&& 0xF).toUInt8 = bank := by
    apply UInt8.toNat_inj.1
    rw [UInt32.toNat_toUInt8, Field.toNat_mask (n := 4) rfl,
      Field.toNat_shiftRight (n := 20) rfl (by omega), hword]
    omega
  have hs' : (w >>> 8) &&& 3 = s.toTileBits := by
    apply UInt32.toNat_inj.1
    rw [Field.toNat_mask (n := 2) rfl, Field.toNat_shiftRight (n := 8) rfl (by omega), hword]
    omega
  have ht' : (w >>> 18) &&& 3 = t.toTileBits := by
    apply UInt32.toNat_inj.1
    rw [Field.toNat_mask (n := 2) rfl, Field.toNat_shiftRight (n := 18) rfl (by omega), hword]
    omega
  change Operation.setTile ((w >>> 20) &&& 0xF).toUInt8 (.ofTileBits (w >>> 8))
    (.ofTileBits (w >>> 18)) = _
  rw [hbank', ofTileBits_of_mask hs', ofTileBits_of_mask ht']

end Instruction

end DisplayList

end DisplayRaster
