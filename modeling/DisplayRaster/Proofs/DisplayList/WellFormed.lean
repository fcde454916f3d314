import DisplayRaster.Proofs.DisplayList.Walk
import DisplayRaster.Proofs.DisplayList.VertexRecord
import DisplayRaster.Proofs.Draw.Targets
import DisplayRaster.Proofs.Texture.Weights

/-!
# What translations look like

Whatever lies in memory, the commands of a display list are such as the renderer expects them:
sizes, coordinates, counts and banks are bounded (`Command.InRange`), a bank is selected only for a
four-bit draw right after it, there are at most two commands to an instruction, and the end command
comes last and nowhere else.

The fields of an instruction are narrow (`Instruction.inRange_operation`), and what instructions
leave in the state of a walk stays in range (`State.InRange.next`).  So the commands of each
instruction are a `Body`, and bodies may follow each other (`Body.append`).
-/

set_option autoImplicit false

namespace DisplayRaster

/-! ## Ranges -/

/-- The formats that images of a display list in memory can have. -/
def TexelFormat.IsNamed (format : TexelFormat) : Prop :=
  format = .ci4 ∨ format = .ci8 ∨ format = .rgba16

/-- A coordinate of at most ten bits. -/
def IsPixel (coord : Int32) : Prop := 0 ≤ coord.toInt ∧ coord.toInt ≤ 1023

/-- A vertex whose coordinates are signed halfwords. -/
structure Vertex.IsHalf (v : Vertex) : Prop where
  x : DisplayRaster.IsHalf v.x
  y : DisplayRaster.IsHalf v.y
  s : DisplayRaster.IsHalf v.s
  t : DisplayRaster.IsHalf v.t

/-- A texture of at most 1024 texels in each direction, and one to 4096 texels from row to row. -/
structure Texture.InRange (texture : Texture) : Prop where
  width_le : texture.width.toNat ≤ 1024
  height_le : texture.height.toNat ≤ 1024
  pitch_pos : 1 ≤ texture.pitch.toNat
  pitch_le : texture.pitch.toNat ≤ 4096

/-- A rectangle in a named format with its first texel on a ten-bit pixel. -/
structure Rect.InRange (r : Rect) : Prop where
  format : r.format.IsNamed
  width_le : r.width.toNat ≤ 1024
  height_le : r.height.toNat ≤ 1024
  x : IsPixel r.x
  y : IsPixel r.y

/-- A scissor with ten-bit corners. -/
structure Scissor.InRange (r : Scissor) : Prop where
  x0 : IsPixel r.x0
  y0 : IsPixel r.y0
  x1 : IsPixel r.x1
  y1 : IsPixel r.y1

namespace Command

/-- A command whose numbers are as small as those of display lists. -/
def InRange : Command → Prop
  | .setTable _ count => 1 ≤ count.toNat ∧ count.toNat ≤ 256
  | .setBank bank => bank.toNat ≤ 15
  | .setScissor r => r.InRange
  | .setDepthBuffer z => z.width.toNat ≤ 4095 ∧ z.height.toNat ≤ 4095
  | .rect r => r.InRange
  | .solidTriangle v | .solidTriangleDepth v => v.All Vertex.IsHalf
  | .texTriangle format projection texture v =>
    format.texel.IsNamed ∧ (format = .rgba16 → projection = .affine) ∧ texture.InRange ∧
      v.All Vertex.IsHalf
  | .texTriangleDepth _ texture v => texture.InRange ∧ v.All Vertex.IsHalf
  | _ => True

/-- A draw of a four-bit texture. -/
def ShowsCi4 : Command → Prop
  | .rect r => r.format = .ci4
  | .texTriangle format .. => format = .ci4
  | _ => False

end Command

namespace DisplayList

/-! ## Bodies -/

/-- Every bank is selected for the draw that follows. -/
def BanksUsed (cs : List Command) : Prop :=
  ∀ (i : Nat) (bank : UInt8), cs[i]? = some (.setBank bank) →
    ∃ draw : Command, cs[i + 1]? = some draw ∧ draw.ShowsCi4

theorem BanksUsed.append {cs ds : List Command} (hcs : BanksUsed cs) (hds : BanksUsed ds) :
    BanksUsed (cs ++ ds) := by
  intro i bank h
  rcases Nat.lt_or_ge i cs.length with hi | hi
  · rw [List.getElem?_append_left hi] at h
    obtain ⟨draw, hdraw, hshows⟩ := hcs i bank h
    have hlt : i + 1 < cs.length := (List.getElem?_eq_some_iff.1 hdraw).1
    exact ⟨draw, by rwa [List.getElem?_append_left hlt], hshows⟩
  · rw [List.getElem?_append_right hi] at h
    obtain ⟨draw, hdraw, hshows⟩ := hds _ bank h
    have hsub : i + 1 - cs.length = i - cs.length + 1 := by omega
    exact ⟨draw, by rwa [List.getElem?_append_right (by omega), hsub], hshows⟩

/-- Commands without a selection of a bank. -/
theorem banksUsed_of_notMem {cs : List Command} (h : ∀ bank, .setBank bank ∉ cs) : BanksUsed cs :=
  fun _ bank hi ↦ absurd (List.mem_of_getElem? hi) (h bank)

/-- Commands that may stand before the end command. -/
structure Body (cs : List Command) : Prop where
  finish_notMem : .finish ∉ cs
  inRange : ∀ c ∈ cs, c.InRange
  banksUsed : BanksUsed cs

/-- Commands as the renderer expects them, for at most `budget` instructions. -/
structure WellFormed (budget : Nat) (cs : List Command) : Prop where
  ends_once : ∃ before, cs = before ++ [.finish] ∧ .finish ∉ before
  length_le : cs.length ≤ 2 * budget + 1
  inRange : ∀ c ∈ cs, c.InRange
  banksUsed : BanksUsed cs

namespace Body

theorem nil : Body [] := ⟨List.not_mem_nil, by simp, banksUsed_of_notMem (by simp)⟩

/-- One command that selects no bank. -/
theorem singleton {c : Command} (hfinish : c ≠ .finish) (hbank : ∀ bank, c ≠ .setBank bank)
    (hrange : c.InRange) : Body [c] where
  finish_notMem := by simpa using hfinish.symm
  inRange := by simpa using hrange
  banksUsed := banksUsed_of_notMem fun bank ↦ by simpa using (hbank bank).symm

theorem append {cs ds : List Command} (hcs : Body cs) (hds : Body ds) : Body (cs ++ ds) where
  finish_notMem h := (List.mem_append.1 h).elim hcs.finish_notMem hds.finish_notMem
  inRange c h := (List.mem_append.1 h).elim (hcs.inRange c) (hds.inRange c)
  banksUsed := hcs.banksUsed.append hds.banksUsed

/-- The end command after a body. -/
theorem wellFormed {budget : Nat} {cs : List Command} (h : Body cs)
    (hlength : cs.length ≤ 2 * budget) : WellFormed budget (cs ++ [.finish]) where
  ends_once := ⟨cs, rfl, h.finish_notMem⟩
  length_le := by simpa using hlength
  inRange c hc := by
    rcases List.mem_append.1 hc with hc | hc
    · exact h.inRange c hc
    · rw [List.mem_singleton.1 hc]
      trivial
  banksUsed := h.banksUsed.append (banksUsed_of_notMem (by simp))

end Body

/-! ## Fields of instructions -/

/-- A named image with rows of one to 4096 texels. -/
structure Image.InRange (image : Image) : Prop where
  format : image.format.IsNamed
  width_pos : 1 ≤ image.width.toNat
  width_le : image.width.toNat ≤ 4096

/-- An operation whose numbers fit their fields. -/
def Operation.InRange : Operation → Prop
  | .setTextureImage format width addr => Image.InRange ⟨format, addr, width, 0⟩
  | .loadTable count _ => 1 ≤ count.toNat ∧ count.toNat ≤ 256
  | .setTileSize c | .setScissor c | .textureRectangle c => c.Narrow
  | .setTile bank _ _ => bank.toNat ≤ 15
  | .setDepthImage width height _ => width.toNat ≤ 4095 ∧ height.toNat ≤ 4095
  | _ => True

namespace Instruction

theorem highField_lt (word : UInt32) : (highField word).toNat < 2 ^ 12 := by
  rw [highField, Field.toNat_mask (n := 12) rfl]
  exact Nat.mod_lt _ (by decide)

theorem lowField_lt (word : UInt32) : (lowField word).toNat < 2 ^ 12 := by
  rw [lowField, Field.toNat_mask (n := 12) rfl]
  exact Nat.mod_lt _ (by decide)

theorem narrow_boxOf (upperLeft lowerRight : UInt32) : (boxOf upperLeft lowerRight).Narrow :=
  ⟨highField_lt _, lowField_lt _, highField_lt _, lowField_lt _⟩

theorem tableCount_mem (field : UInt32) :
    1 ≤ (tableCount field).toNat ∧ (tableCount field).toNat ≤ 256 := by
  rw [tableCount]
  split
  · decide
  · next h =>
    have hfield : field.toNat ≠ 0 := fun h0 ↦ h (UInt32.toNat_inj.1 h0)
    have h256 : (256 : UInt32).toNat = 256 := rfl
    rw [UInt32.min_def]
    split
    · next hle => rw [UInt32.le_iff_toNat_le] at hle; omega
    · omega

theorem isNamed_of_texelFormat? {field : UInt32} {format : TexelFormat}
    (h : texelFormat? field = some format) : format.IsNamed := by
  unfold texelFormat? at h
  split at h
  · exact .inl (Option.some.inj h).symm
  · exact .inr (.inl (Option.some.inj h).symm)
  · exact .inr (.inr (Option.some.inj h).symm)
  · cases h

/-- **An instruction has no room for more than its fields hold.** -/
theorem inRange_operation (i : Instruction) : i.operation.InRange := by
  rw [operation]
  split
  · next code _ =>
    cases code with
    | setTextureImage =>
      rw [operationOf]
      split
      · next format hformat =>
        have hwidth : ((i.w0 &&& 0xFFF) + 1).toNat = i.w0.toNat % 2 ^ 12 + 1 := by
          have h1 : (1 : UInt32).toNat = 1 := rfl
          rw [UInt32.toNat_add, Field.toNat_mask (n := 12) rfl]
          omega
        exact ⟨isNamed_of_texelFormat? hformat, by simp only [hwidth]; omega,
          by simp only [hwidth]; omega⟩
      · trivial
    | loadTable => exact tableCount_mem _
    | setTileSize | setScissor | textureRectangle => exact narrow_boxOf _ _
    | setTile =>
      show ((i.w1 >>> 20) &&& 0xF).toUInt8.toNat ≤ 15
      rw [UInt32.toNat_toUInt8, Field.toNat_mask (n := 4) rfl]
      omega
    | setDepthImage =>
      exact ⟨Nat.le_of_lt_succ (highField_lt _), Nat.le_of_lt_succ (lowField_lt _)⟩
    | _ => trivial
  · trivial

end Instruction

/-! ## Images, tiles and vertices -/

theorem toNat_quarterSpan_le {extra : Int} {ul lr : UInt32} {bound : Nat}
    (h : (lr.toNat : Int) / 4 + extra ≤ bound) : (quarterSpan extra ul lr).toNat ≤ bound := by
  rw [quarterSpan, UInt32.toNat_ofNat']
  refine (Nat.mod_le _ _).trans ?_
  omega

theorem isPixel_quarterPixel {value : UInt32} (h : value.toNat < 2 ^ 12) :
    IsPixel (quarterPixel value) := by
  have hshift : (value >>> 2).toNat = value.toNat / 2 ^ 2 :=
    Field.toNat_shiftRight (n := 2) rfl (by omega)
  rw [IsPixel, quarterPixel, toInt_toInt32_of_lt (by omega), hshift]
  omega

/-- A tile of at most 1024 texels in each direction. -/
structure TileExtent.InRange (tile : TileExtent) : Prop where
  width_le : tile.width.toNat ≤ 1024
  height_le : tile.height.toNat ≤ 1024

theorem Box.Narrow.inRange_ofBox {c : Box} (h : c.Narrow) : (TileExtent.ofBox c).InRange := by
  obtain ⟨-, -, hx, hy⟩ := h
  exact ⟨toNat_quarterSpan_le (by omega), toNat_quarterSpan_le (by omega)⟩

theorem Image.InRange.rect {image : Image} (h : image.InRange) {tile? : Option TileExtent}
    (htile : ∀ tile, tile? = some tile → tile.InRange) {c : Box} (hc : c.Narrow) :
    (image.rect tile? c).InRange := by
  have hsize : (tile?.getD ⟨pixelSpan c.ulx c.lrx, pixelSpan c.uly c.lry⟩).InRange := by
    cases tile? with
    | some tile => exact htile tile rfl
    | none =>
      obtain ⟨-, -, hx, hy⟩ := hc
      exact ⟨toNat_quarterSpan_le (by omega), toNat_quarterSpan_le (by omega)⟩
  exact ⟨h.format, hsize.width_le, hsize.height_le, isPixel_quarterPixel hc.ulx_lt,
    isPixel_quarterPixel hc.uly_lt⟩

theorem Image.InRange.texture {image : Image} (h : image.InRange) {tile : TileExtent}
    (htile : tile.InRange) : (image.texture tile).InRange :=
  ⟨htile.width_le, htile.height_le, h.width_pos, h.width_le⟩

end DisplayList

namespace VertexLayout

variable {μ : Type} [Memory μ]

theorem isHalf_signedHalf (value : UInt16) : IsHalf (signedHalf value) := by
  have hmin := value.toInt16.le_toInt
  have hmax := value.toInt16.toInt_lt
  rw [IsHalf, signedHalf, Int16.toInt_toInt32]
  omega

theorem exists_of_bind_eq_ok {ε α β : Type} {x : Except ε α} {f : α → Except ε β} {b : β}
    (h : (x >>= f) = .ok b) : ∃ a, x = .ok a ∧ f a = .ok b := by
  cases x with
  | error e => cases h
  | ok a => exact ⟨a, rfl, h⟩

theorem isHalf_of_coord {x : Except MemoryFault UInt16} {coord : Int32}
    (h : (return signedHalf (← x) : Except MemoryFault Int32) = .ok coord) : IsHalf coord := by
  obtain ⟨value, -, hvalue⟩ := exists_of_bind_eq_ok h
  cases hvalue
  exact isHalf_signedHalf value

/-- The coordinates of every record are signed halfwords. -/
theorem isHalf_of_read {layout : VertexLayout} {m : μ} {addr : UInt32} {v : Vertex}
    (h : layout.read m addr = .ok v) : v.IsHalf := by
  rw [read] at h
  obtain ⟨x, hx, h⟩ := exists_of_bind_eq_ok h
  obtain ⟨y, hy, h⟩ := exists_of_bind_eq_ok h
  have hx := isHalf_of_coord hx
  have hy := isHalf_of_coord hy
  have hzero : IsHalf 0 := by decide
  cases layout with
  | plain =>
    cases h
    exact ⟨hx, hy, hzero, hzero⟩
  | tex =>
    obtain ⟨s, hs, h⟩ := exists_of_bind_eq_ok h
    obtain ⟨t, ht, h⟩ := exists_of_bind_eq_ok h
    cases h
    exact ⟨hx, hy, isHalf_of_coord hs, isHalf_of_coord ht⟩
  | texDepth =>
    obtain ⟨s, hs, h⟩ := exists_of_bind_eq_ok h
    obtain ⟨t, ht, h⟩ := exists_of_bind_eq_ok h
    obtain ⟨z, -, h⟩ := exists_of_bind_eq_ok h
    cases h
    exact ⟨hx, hy, isHalf_of_coord hs, isHalf_of_coord ht⟩
  | texWeightDepth =>
    obtain ⟨s, hs, h⟩ := exists_of_bind_eq_ok h
    obtain ⟨t, ht, h⟩ := exists_of_bind_eq_ok h
    obtain ⟨q, -, h⟩ := exists_of_bind_eq_ok h
    obtain ⟨z, -, h⟩ := exists_of_bind_eq_ok h
    cases h
    exact ⟨hx, hy, isHalf_of_coord hs, isHalf_of_coord ht⟩

end VertexLayout

namespace DisplayList

namespace Bytecode

variable {μ : Type} [Memory μ]

/-! ## States -/

/-- A state that holds what instructions can set up. -/
structure State.InRange (st : State) : Prop where
  image : ∀ image, st.image = some image → image.InRange
  tile : ∀ tile, st.tile = some tile → tile.InRange
  bank_le : st.bank.toNat ≤ 15
  vertices : ∀ v ∈ st.vertices, v.IsHalf

theorem State.inRange_initial : State.initial.InRange :=
  ⟨by simp [initial], by simp [initial], by decide, by simp [initial]⟩

theorem isHalf_of_mem_fillSlots (m : μ) (layout : VertexLayout) (count : Nat) (addr : UInt32)
    {slots : Array Vertex} (hslots : ∀ v ∈ slots, v.IsHalf) :
    ∀ v ∈ fillSlots m layout count addr slots, v.IsHalf := by
  induction count generalizing addr slots with
  | zero => exact hslots
  | succ count ih =>
    rw [fillSlots]
    split
    · exact hslots
    · split
      · next v hread =>
        refine ih _ fun u hu ↦ ?_
        rcases Array.mem_push.1 hu with hu | rfl
        · exact hslots u hu
        · exact VertexLayout.isHalf_of_read hread
      · exact hslots

/-- The state stays in range. -/
theorem State.InRange.next {st : State} (h : st.InRange) (m : μ) {op : Operation}
    (hop : op.InRange) : (st.next m op).InRange := by
  cases op with
  | setTextureImage format width addr =>
    refine { h with image := fun image himage ↦ ?_ }
    cases Option.some.inj himage
    exact ⟨hop.format, hop.width_pos, hop.width_le⟩
  | setTileSize c =>
    refine { h with tile := fun tile htile ↦ ?_ }
    cases Option.some.inj htile
    exact hop.inRange_ofBox
  | setTile bank s t => exact { h with bank_le := hop }
  | vertices layout count addr =>
    exact { h with vertices := isHalf_of_mem_fillSlots m layout count _ h.vertices }
  | segment id base => exact { h with }
  | _ => exact h

/-! ## Commands of an operation -/

/-- A draw, with its bank if it has a four-bit texture. -/
theorem body_draw {st : State} (h : st.InRange) {format : TexelFormat} {draw : Command}
    (hfinish : draw ≠ .finish) (hbank : ∀ bank, draw ≠ .setBank bank) (hrange : draw.InRange)
    (hshows : format = .ci4 → draw.ShowsCi4) : Body (bankCommands st format ++ [draw]) := by
  have hdraw := Body.singleton hfinish hbank hrange
  rw [bankCommands]
  split
  · next hci4 =>
    refine ⟨?_, ?_, ?_⟩
    · simpa using hfinish.symm
    · rintro c (_ | ⟨_, hc⟩)
      · exact h.bank_le
      · exact hdraw.inRange c hc
    · intro i bank hi
      rcases i with _ | i
      · exact ⟨draw, rfl, hshows hci4⟩
      · have hi : [draw][i]? = some (.setBank bank) := hi
        exact absurd (List.mem_of_getElem? hi) (by simpa using (hbank bank).symm)
  · exact hdraw

theorem all_of_corners? {slots : Array Vertex} (h : ∀ v ∈ slots, v.IsHalf) {indices : Corners Nat}
    {v : Corners Vertex} (hv : corners? slots indices = some v) : v.All Vertex.IsHalf := by
  simp only [corners?, Option.bind_eq_bind, Option.bind_eq_some_iff, Option.pure_def,
    Option.some.injEq] at hv
  obtain ⟨a, ha, b, hb, c, hc, rfl⟩ := hv
  exact ⟨h a (Array.mem_of_getElem? ha), h b (Array.mem_of_getElem? hb),
    h c (Array.mem_of_getElem? hc)⟩

theorem body_solidCommand (layout : VertexLayout) {v : Corners Vertex}
    (hv : v.All Vertex.IsHalf) : Body [solidCommand layout v] := by
  cases layout <;> exact Body.singleton (by simp [solidCommand]) (by simp [solidCommand]) hv

theorem inRange_texturedCommand (layout : VertexLayout) {format : TriangleFormat}
    (hformat : format.texel.IsNamed) {texture : Texture} (htexture : texture.InRange)
    {v : Corners Vertex} (hv : v.All Vertex.IsHalf) :
    (texturedCommand layout format texture v).InRange := by
  cases layout with
  | plain | tex => exact ⟨hformat, fun _ ↦ rfl, htexture, hv⟩
  | texDepth =>
    cases format with
    | rgba16 => exact ⟨htexture, hv⟩
    | _ => exact ⟨hformat, fun _ ↦ rfl, htexture, hv⟩
  | texWeightDepth =>
    -- direct colors in perspective have a command of their own
    cases format with
    | rgba16 => exact ⟨htexture, hv⟩
    | _ => exact ⟨hformat, nofun, htexture, hv⟩

theorem body_texturedCommand {st : State} (h : st.InRange) (layout : VertexLayout)
    {format : TriangleFormat} (hformat : format.texel.IsNamed) {texture : Texture}
    (htexture : texture.InRange) {v : Corners Vertex} (hv : v.All Vertex.IsHalf) :
    Body (bankCommands st format.texel ++ [texturedCommand layout format texture v]) := by
  refine body_draw h ?_ ?_ (inRange_texturedCommand layout hformat htexture hv) ?_
  · cases layout <;> cases format <;> exact nofun
  · intro bank
    cases layout <;> cases format <;> exact nofun
  · intro hci4
    have hformat : format = .ci4 := by
      cases format with
      | ci4 => rfl
      | _ => cases hci4
    subst hformat
    cases layout <;> rfl

theorem body_triangleCommands {st : State} (h : st.InRange) (layout : VertexLayout)
    {v : Corners Vertex} (hv : v.All Vertex.IsHalf) : Body (triangleCommands st layout v) := by
  unfold triangleCommands
  split
  · exact body_solidCommand _ hv
  · exact body_solidCommand _ hv
  · next image _ himage =>
    split
    · next tile format htile hformat =>
      have hrange := h.image image himage
      rw [TexelFormat.triangle?_eq_some_iff] at hformat
      have hnamed := hrange.format
      rw [hformat] at hnamed ⊢
      exact body_texturedCommand h _ hnamed (hrange.texture (h.tile tile htile)) hv
    · exact Body.nil

/-- **The commands of an operation are bounded by its fields and by the state.** -/
theorem body_commands {st : State} (h : st.InRange) {op : Operation} (hop : op.InRange) :
    Body (commands st op) := by
  cases op with
  | loadTable count addr => exact Body.singleton nofun nofun hop
  | setScissor c =>
    refine Body.singleton nofun nofun ⟨?_, ?_, ?_, ?_⟩
    · exact isPixel_quarterPixel hop.ulx_lt
    · exact isPixel_quarterPixel hop.uly_lt
    · exact isPixel_quarterPixel hop.lrx_lt
    · exact isPixel_quarterPixel hop.lry_lt
  | textureRectangle c =>
    rw [commands]
    split
    · next image himage =>
      have hrect := (h.image image himage).rect h.tile hop
      exact body_draw h nofun nofun hrect fun hci4 ↦ hci4
    · exact Body.nil
  | triangle layout indices =>
    rw [commands]
    split
    · next v hv => exact body_triangleCommands h layout (all_of_corners? h.vertices hv)
    · exact Body.nil
  | setDepthImage width height addr => exact Body.singleton nofun nofun hop
  | setTile | setPrimColor | setEnvColor | setCombine | setDepthEnabled | clearDepth | setFilter
  | setBlend => exact Body.singleton nofun nofun trivial
  | _ => exact Body.nil

theorem length_bankCommands_le (st : State) (format : TexelFormat) :
    (bankCommands st format).length ≤ 1 := by
  rw [bankCommands]
  split <;> simp

theorem length_commands_le (st : State) (op : Operation) : (commands st op).length ≤ 2 := by
  have hdraw (format : TexelFormat) (draw : Command) :
      (bankCommands st format ++ [draw]).length ≤ 2 := by
    have := length_bankCommands_le st format
    rw [List.length_append, List.length_singleton]
    omega
  cases op with
  | textureRectangle c =>
    rw [commands]
    split
    · exact hdraw _ _
    · exact Nat.zero_le _
  | triangle layout indices =>
    rw [commands]
    split
    · unfold triangleCommands
      split
      · exact Nat.le_succ _
      · exact Nat.le_succ _
      · split
        · exact hdraw _ _
        · exact Nat.zero_le _
    · exact Nat.zero_le _
  | _ => simp [commands]

/-! ## Walks -/

theorem operation_inRange {m : μ} {addr : UInt32} {op : Operation}
    (h : operationAt m addr = some op) : op.InRange := by
  obtain ⟨i, -, rfl⟩ := Option.map_eq_some_iff.1 h
  exact i.inRange_operation

/-- From any state in range, a walk adds a body of at most two commands to each instruction. -/
theorem walk_commands (m : μ) (limit budget : Nat) (place : Place) {st : State} (h : st.InRange)
    (done : Array Command) :
    ∃ cs : List Command, (walk m limit budget place st done).commands = done ++ cs ∧ Body cs ∧
      cs.length ≤ 2 * budget := by
  induction budget generalizing place st done with
  | zero => exact ⟨[], by simp [walk], Body.nil, by simp⟩
  | succ budget ih =>
    cases hop : operationAt m place.addr with
    | none =>
      rw [walk_of_unreadable hop]
      exact ⟨[], by simp, Body.nil, by simp⟩
    | some op =>
      have hbody := body_commands h (operation_inRange hop)
      have hlength := length_commands_le st op
      rw [walk_succ hop]
      cases place.next limit st op with
      | none => exact ⟨commands st op, rfl, hbody, by omega⟩
      | some next =>
        obtain ⟨cs, hcs, hrest, hle⟩ :=
          ih next (h.next m (operation_inRange hop)) (done ++ commands st op)
        refine ⟨commands st op ++ cs, ?_, hbody.append hrest, ?_⟩
        · rw [← append_commands]
          exact hcs
        · rw [List.length_append]
          omega

/-- **Whatever lies in memory, its translation is well formed.** -/
theorem wellFormed_translate (m : μ) (start : UInt32) (budget : Nat) :
    WellFormed budget (translate m start budget) := by
  obtain ⟨cs, hcs, hbody, hle⟩ :=
    walk_commands m (min budget callLimit) budget ⟨State.initial.locate start, #[]⟩
      State.inRange_initial #[]
  rw [translate, run, hcs]
  simpa using hbody.wellFormed hle

end Bytecode

/-! ## Structured display lists -/

namespace Directive

/-- The entries before the first end directive. -/
def live (ds : List Directive) : List Directive := ds.takeWhile (· ≠ .finish)

theorem finish_notMem_commands (ctx : Context) (d : Directive) : .finish ∉ d.commands ctx := by
  cases d with
  | loadTable =>
    rw [commands]
    split <;> simp
  | textureRectangle | drawSprite =>
    rw [commands]
    split <;> simp
  | _ => simp [commands]

theorem finish_notMem_commandsFrom (ctx : Context) (ds : List Directive) :
    .finish ∉ commandsFrom ctx ds := by
  induction ds generalizing ctx with
  | nil => simp [commandsFrom]
  | cons d ds ih =>
    by_cases hd : d = .finish
    · subst hd
      simp [commandsFrom]
    · rw [commandsFrom_cons hd, List.mem_append, not_or]
      exact ⟨finish_notMem_commands ctx d, ih _⟩

theorem commandsFrom_live (ctx : Context) (ds : List Directive) :
    commandsFrom ctx (live ds) = commandsFrom ctx ds := by
  induction ds generalizing ctx with
  | nil => rfl
  | cons d ds ih =>
    by_cases hd : d = .finish
    · subst hd
      rfl
    · have hlive : live (d :: ds) = d :: live ds := by simp [live, hd]
      rw [hlive, commandsFrom_cons hd, commandsFrom_cons hd, ih]

end Directive

/-- **Translations are well formed.**  A display list in memory, whatever it is, becomes commands in
range that end once and are at most two to an instruction of the budget, and a structured display
list becomes the commands of its entries before the first end, which end once. -/
theorem translations_wellFormed :
    (∀ {μ : Type} [Memory μ] (m : μ) (start : UInt32) (budget : Nat),
      WellFormed budget (Bytecode.translate m start budget)) ∧
    ∀ ds : List Directive,
      Directive.translate ds = Directive.translate (ds.takeWhile (· ≠ .finish)) ∧
        ∃ before, Directive.translate ds = before ++ [.finish] ∧ .finish ∉ before := by
  refine ⟨fun m start budget ↦ Bytecode.wellFormed_translate m start budget, fun ds ↦ ⟨?_, ?_⟩⟩
  · rw [Directive.translate_eq, Directive.translate_eq]
    exact congrArg (· ++ [.finish]) (Directive.commandsFrom_live .initial ds).symm
  · exact ⟨_, Directive.translate_eq ds, Directive.finish_notMem_commandsFrom .initial ds⟩

end DisplayList

end DisplayRaster
