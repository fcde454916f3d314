import DisplayRaster.Proofs.DisplayList.Shared
import DisplayRaster.Proofs.Draw.Bank

/-!
# The two kinds of display list agree

Translating the two spellings of a list of shared steps gives commands that draw the same.  The
translators keep different things: one remembers the height of an image, and emits the selection of
a bank at once; the other keeps vertex slots and the bank, and emits the selection just before a
four-bit image is drawn.  `Agrees` relates what they keep, `Shared.tracks_step` follows one step
through both of them, and the commands are related by `Tracks` throughout.
-/

set_option autoImplicit false

namespace DisplayRaster

namespace DisplayList

open Bytecode (commands lineCommands pushCorners)

/-- What the two translators have been told is the same. -/
structure Agrees (ctx : Context) (st : Bytecode.State) : Prop where
  unsegmented : st.Unsegmented
  image_eq : st.image = ctx.image.map fun image ↦ { image with height := 0 }
  tile_eq : st.tile = ctx.tile
  bank_eq : st.bank &&& 0xF = st.bank

theorem agrees_initial : Agrees .initial .initial :=
  ⟨Bytecode.State.unsegmented_initial, rfl, rfl, rfl⟩

theorem bank_mask {bank : UInt8} (h : bank.toNat ≤ 15) : bank &&& 0xF = bank := by
  apply UInt8.toNat_inj.1
  rw [UInt8.toNat_and]
  exact (Nat.and_two_pow_sub_one_eq_mod _ 4).trans (Nat.mod_eq_of_lt (by omega))

namespace Shared

variable {m : Rdram} {ctx : Context} {st : Bytecode.State} {rest : List Directive}
  {ops : List Operation}

/-! ## One step -/

/-- A rectangle is drawn by both, after the bank if it is looked at.  The height of the image does
not matter to it. -/
theorem tracks_rectangle {corners : Box} (h : Agrees ctx st) {early late : List Command}
    (hrest : Tracks st.bank early late) :
    Tracks st.bank ((Directive.textureRectangle corners).commands ctx ++ early)
      (commands st (.textureRectangle corners) ++ late) := by
  obtain ⟨-, himage, htile, -⟩ := h
  cases hctx : ctx.image with
  | none =>
    rw [hctx, Option.map_none] at himage
    rw [Directive.commands, commands, hctx, himage]
    exact hrest
  | some image =>
    rw [hctx, Option.map_some] at himage
    have hrect : Image.rect { image with height := 0 } ctx.tile corners =
        image.rect ctx.tile corners := rfl
    simp only [Directive.commands, commands, hctx, himage, htile, hrect, Bytecode.bankCommands]
    by_cases hformat : image.format = .ci4
    · rw [if_pos hformat]
      exact .use (decide_eq_true hformat) hrest
    · rw [if_neg hformat]
      exact .same rfl (decide_eq_false hformat) hrest

/-- The three records of a triangle fill three slots with its corners. -/
theorem fillSlots_records {points : Corners (Int32 × Int32)} {records : UInt32}
    (hvalid : (fillTriangle points records).Valid)
    (hrecords : (fillTriangle points records).RecordsIn m) {slots : Array Vertex}
    (hslots : slots.size + 3 ≤ Bytecode.slotCount) :
    Bytecode.fillSlots m .plain 3 records slots = pushCorners slots (corners points) := by
  obtain ⟨heven, hbytes⟩ := hrecords
  obtain ⟨⟨hax, hay⟩, ⟨hbx, hby⟩, ⟨hcx, hcy⟩⟩ := hvalid
  obtain ⟨ha, hbytes⟩ := hbytes.append
  obtain ⟨hb, hbytes⟩ := hbytes.append
  obtain ⟨hc, -⟩ := hbytes.append
  have h4 : (4 : UInt32).toNat = 4 := rfl
  have heven₁ : (records + 4).toNat % 2 = 0 := by
    rw [UInt32.toNat_add]
    omega
  have heven₂ : (records + 4 + 4).toNat % 2 = 0 := by
    rw [UInt32.toNat_add]
    omega
  exact Bytecode.fillSlots_three (VertexLayout.read_plain heven ha hax hay)
    (VertexLayout.read_plain heven₁ hb hbx hby) (VertexLayout.read_plain heven₂ hc hcx hcy) hslots

/-- The two operations of a triangle give one command. -/
theorem lineCommands_fillTriangle (hunsegmented : st.Unsegmented)
    {points : Corners (Int32 × Int32)} {records : UInt32}
    (hvalid : (fillTriangle points records).Valid)
    (hrecords : (fillTriangle points records).RecordsIn m)
    (hslots : st.vertices.size + 3 ≤ Bytecode.slotCount) :
    lineCommands m st ((fillTriangle points records).operations st.vertices.size ++ ops) =
      .solidTriangle (corners points) ::
        lineCommands m { st with vertices := pushCorners st.vertices (corners points) } ops := by
  have hnext : st.next m (.vertices .plain 3 records) =
      { st with vertices := pushCorners st.vertices (corners points) } := by
    rw [Bytecode.State.next, hunsegmented.locate, fillSlots_records hvalid hrecords hslots]
  have hcommands : commands { st with vertices := pushCorners st.vertices (corners points) }
        (.triangle .plain ⟨st.vertices.size, st.vertices.size + 1, st.vertices.size + 2⟩) =
      [.solidTriangle (corners points)] := by
    simp only [commands, Bytecode.corners?_pushCorners]
    rfl
  rw [operations, List.cons_append, lineCommands, List.cons_append, lineCommands, hnext, hcommands]
  rfl

/-- **One step through both translators.**  If the rest of the two lists tracks from all that the
step can leave behind, so do the two lists from what was there before. -/
theorem tracks_step {step : Shared} (hvalid : step.Valid) (hrecords : step.RecordsIn m)
    (hslots : st.vertices.size + step.slots ≤ Bytecode.slotCount) (h : Agrees ctx st)
    (hrest : ∀ ctx' st', Agrees ctx' st' → st'.vertices.size = st.vertices.size + step.slots →
      Tracks st'.bank (Directive.commandsFrom ctx' rest) (lineCommands m st' ops)) :
    Tracks st.bank (Directive.commandsFrom ctx (step.directives ++ rest))
      (lineCommands m st (step.operations st.vertices.size ++ ops)) := by
  obtain ⟨hunsegmented, himage, htile, hbank⟩ := h
  cases step with
  | setColorImage => exact hrest ctx st ⟨hunsegmented, himage, htile, hbank⟩ rfl
  | setPrimColor | setEnvColor | setCombine | setFilter | setBlend | setDepthEnabled | clearDepth =>
    exact .same rfl rfl (hrest ctx st ⟨hunsegmented, himage, htile, hbank⟩ rfl)
  | setTextureImage image =>
    have hnext : st.next m (.setTextureImage image.format image.width image.addr) =
        { st with image := some { image with height := 0 } } := by
      rw [Bytecode.State.next, hunsegmented.locate]
    rw [operations, List.cons_append, lineCommands, hnext]
    exact hrest { ctx with image := some image }
      { st with image := some { image with height := 0 } } ⟨hunsegmented, rfl, htile, hbank⟩ rfl
  | setTileSize corners =>
    exact hrest { ctx with tile := some (.ofBox corners) }
      { st with tile := some (.ofBox corners) } ⟨hunsegmented, himage, rfl, hbank⟩ rfl
  | textureRectangle corners =>
    have hagrees : Agrees ctx st := ⟨hunsegmented, himage, htile, hbank⟩
    exact tracks_rectangle hagrees (hrest ctx st hagrees rfl)
  | loadTable addr count =>
    have hcommands : commands st (.loadTable count addr) = [.setTable addr count] := by
      rw [commands, hunsegmented.locate]
    rw [operations, List.cons_append, lineCommands, hcommands]
    exact .same rfl rfl (hrest { ctx with table := some (addr, count) } st
      ⟨hunsegmented, himage, htile, hbank⟩ rfl)
  | setTile bank s t =>
    have hmask := bank_mask hvalid
    have hselect : (Directive.setBank bank).commands ctx = [.setBank bank] := by
      rw [Directive.commands, hmask]
    -- One list selects the bank here; the translation of the other only remembers it.
    rw [directives, List.cons_append, Directive.commandsFrom_cons (by simp), hselect]
    exact .select hmask (.same rfl rfl (hrest ctx { st with bank := bank }
      ⟨hunsegmented, himage, htile, hmask⟩ rfl))
  | setDepthBuffer buffer =>
    have hcommands : commands st (.setDepthImage buffer.width buffer.height buffer.addr) =
        [.setDepthBuffer buffer] := by
      rw [commands, hunsegmented.locate]
    rw [operations, List.cons_append, lineCommands, hcommands]
    exact .same rfl rfl (hrest ctx st ⟨hunsegmented, himage, htile, hbank⟩ rfl)
  | setScissor rect =>
    obtain ⟨hx0, hy0, hx1, hy1⟩ := hvalid
    have hcommands : commands st (.setScissor (scissorBox rect)) = [.setScissor rect] := by
      simp only [commands, Bytecode.scissorOf, scissorBox, quarterPixel_four_mul hx0,
        quarterPixel_four_mul hy0, quarterPixel_four_mul hx1, quarterPixel_four_mul hy1]
    rw [operations, List.cons_append, lineCommands, hcommands]
    exact .same rfl rfl (hrest ctx st ⟨hunsegmented, himage, htile, hbank⟩ rfl)
  | fillTriangle points records =>
    rw [lineCommands_fillTriangle hunsegmented hvalid hrecords hslots]
    exact .same rfl rfl (hrest ctx { st with vertices := pushCorners st.vertices (corners points) }
      ⟨hunsegmented, himage, htile, hbank⟩ (Bytecode.size_pushCorners _ _))

/-! ## All steps -/

/-- **The commands of the two spellings track each other.** -/
theorem tracks_from (ended : Bool) {steps : List Shared}
    (hvalid : ∀ step ∈ steps, step.Valid) (hrecords : ∀ step ∈ steps, step.RecordsIn m)
    (hslots : st.vertices.size + 3 * steps.countP isTriangle ≤ Bytecode.slotCount)
    (h : Agrees ctx st) :
    Tracks st.bank (Directive.commandsFrom ctx (allDirectives steps ended))
      (lineCommands m st (operationsFrom st.vertices.size steps)) := by
  induction steps generalizing ctx st with
  | nil =>
    cases ended with
    | false => exact .nil _
    | true => exact .nil _
  | cons step steps ih =>
    rw [countP_isTriangle_cons] at hslots
    rw [allDirectives, List.flatMap_cons, List.append_assoc, operationsFrom]
    refine tracks_step (hvalid step (by simp)) (hrecords step (by simp)) (by omega) h ?_
    intro ctx' st' h' hsize'
    rw [← hsize']
    exact ih (fun s hs ↦ hvalid s (by simp [hs])) (fun s hs ↦ hrecords s (by simp [hs]))
      (by omega) h'

/-- The commands of the steps written to memory. -/
theorem translate_write {steps : List Shared} (hvalid : ∀ step ∈ steps, step.Valid)
    (hslots : 3 * steps.countP isTriangle ≤ Bytecode.slotCount) {addr : UInt32} {m' : Rdram}
    (hwrite : Instruction.write m addr (allInstructions steps) = ⟨m', none⟩)
    (hroom : m.size < 2 ^ 29 ∨ 8 * (allInstructions steps).length ≤ 2 ^ 29) {budget : Nat}
    (hbudget : (allInstructions steps).length ≤ budget) :
    Bytecode.translate m' addr budget =
      lineCommands m' .initial (operationsFrom 0 steps) ++ [.finish] := by
  have hroom := Instruction.room_of_write hwrite hroom
  have hlength := Instruction.length_words (allInstructions steps)
  have hheld := Rdram.holds_writeWords (by omega) hwrite
  have hslots : 0 + 3 * steps.countP isTriangle ≤ Bytecode.slotCount := by omega
  have hops := map_operation_instructionsFrom hvalid hslots
  have hstraight : ∀ i ∈ instructionsFrom 0 steps, i.operation.isStraight = true := by
    intro i hi
    have hop := List.mem_map_of_mem (f := Instruction.operation) hi
    rw [hops] at hop
    exact isStraight_of_mem_operationsFrom hop
  rw [allInstructions, List.length_append, List.length_singleton] at hbudget
  rw [Bytecode.translate_line hstraight hheld (by omega), hops]

end Shared

/-! ## Without a bank -/

/-- The image is not a four-bit one. -/
def Context.Bankless (ctx : Context) : Prop :=
  ∀ image, ctx.image = some image → image.format ≠ .ci4

namespace Directive

/-- Whether a directive has to do with the bank of four-bit textures. -/
def touchesBank : Directive → Bool
  | .setBank _ => true
  | .setTextureImage image => image.format = .ci4
  | _ => false

variable {ctx : Context}

theorem bankless_describe {d : Directive} (hd : d.touchesBank = false) (h : ctx.Bankless) :
    (d.describe ctx).Bankless := by
  cases d with
  | setTextureImage image =>
    rintro _ ⟨⟩
    exact of_decide_eq_false hd
  | _ => exact h

theorem bankless_rect {r : Rect} (h : r.format ≠ .ci4) :
    ∀ c ∈ [Command.rect r], c.setsBank = false ∧ c.usesBank = false := by
  intro c hc
  rw [List.mem_singleton.1 hc]
  exact ⟨rfl, decide_eq_false h⟩

theorem bankless_commands {d : Directive} (hd : d.touchesBank = false) (h : ctx.Bankless) :
    ∀ c ∈ d.commands ctx, c.setsBank = false ∧ c.usesBank = false := by
  cases d with
  | textureRectangle corners =>
    cases hctx : ctx.image with
    | none => simp [commands, hctx]
    | some image =>
      rw [commands, hctx]
      exact bankless_rect (h image hctx)
  | drawSprite x y =>
    cases hctx : ctx.image with
    | none => simp [commands, hctx]
    | some image =>
      rw [commands, hctx]
      exact bankless_rect (h image hctx)
  | loadTable =>
    cases htable : ctx.table with
    | none => simp [commands, htable]
    | some table => simp [commands, htable, Command.setsBank, Command.usesBank]
  | setBank bank => cases hd
  | _ => simp [commands, Command.setsBank, Command.usesBank]

/-- Without a directive that has to do with the bank, no bank is selected and no four-bit image is
drawn. -/
theorem bankless_commandsFrom {ds : List Directive} (hds : ∀ d ∈ ds, d.touchesBank = false)
    (h : ctx.Bankless) :
    ∀ c ∈ commandsFrom ctx ds, c.setsBank = false ∧ c.usesBank = false := by
  induction ds generalizing ctx with
  | nil =>
    intro c hc
    cases hc
  | cons d ds ih =>
    intro c hc
    by_cases hfinish : d = .finish
    · subst hfinish
      cases hc
    · have hd := hds d (by simp)
      rw [commandsFrom_cons hfinish] at hc
      rcases List.mem_append.1 hc with hc | hc
      · exact bankless_commands hd h c hc
      · exact ih (fun e he ↦ hds e (by simp [he])) (bankless_describe hd h) c hc

end Directive

/-! ## Agreement -/

namespace Shared

open Command (applyAll)

/-- **The two kinds of display list agree.**  Take steps with room in the fields, at most five of
them triangles.  Their directives, with or without an end directive, and their instructions, written
to memory that has the vertex records, translate to commands that draw the same on every framebuffer
and memory.  Apart from selections of a bank the commands are the same, and they are the same
altogether when no directive has to do with the bank. -/
theorem translate_agrees {steps : List Shared} (hvalid : ∀ step ∈ steps, step.Valid)
    (htriangles : steps.countP isTriangle ≤ 5) (ended : Bool) {m m' : Rdram} {addr : UInt32}
    (hwrite : Instruction.write m addr (allInstructions steps) = ⟨m', none⟩)
    (hroom : m.size < 2 ^ 29 ∨ 8 * (allInstructions steps).length ≤ 2 ^ 29)
    (hrecords : ∀ step ∈ steps, step.RecordsIn m') {budget : Nat}
    (hbudget : (allInstructions steps).length ≤ budget) :
    let structured := Directive.translate (allDirectives steps ended)
    let inMemory := Bytecode.translate m' addr budget
    (∀ (fb : Framebuffer) (target : Rdram),
      (applyAll fb structured (.initial fb.width fb.height) target).2 =
        (applyAll fb inMemory (.initial fb.width fb.height) target).2) ∧
      structured.filter (fun c ↦ !c.setsBank) = inMemory.filter (fun c ↦ !c.setsBank) ∧
      ((∀ d ∈ allDirectives steps ended, d.touchesBank = false) → structured = inMemory) := by
  intro structured inMemory
  have hslots : 3 * steps.countP isTriangle ≤ Bytecode.slotCount := by
    have hsixteen : Bytecode.slotCount = 16 := rfl
    omega
  have hmemory := translate_write hvalid hslots hwrite hroom hbudget
  have htracks : Tracks 0 structured inMemory := by
    have hfrom := tracks_from ended hvalid hrecords
      (by rw [show Bytecode.State.initial.vertices.size = 0 from rfl, Nat.zero_add]; exact hslots)
      agrees_initial
    have hstructured : structured =
        Directive.commandsFrom .initial (allDirectives steps ended) ++ [.finish] :=
      Directive.translate_eq _
    rw [hstructured, show inMemory = _ from hmemory]
    exact hfrom.append_same fun c hc ↦ by rw [List.mem_singleton.1 hc]; exact ⟨rfl, rfl⟩
  refine ⟨fun fb target ↦ ?_, htracks.filter_eq, fun hbank ↦ ?_⟩
  · exact htracks.applyAll_eq rfl fb (.initial fb.width fb.height) target
  · refine htracks.eq_of_no_bank ?_
    intro c hc
    rw [show structured = _ from Directive.translate_eq _] at hc
    rcases List.mem_append.1 hc with hc | hc
    · exact Directive.bankless_commandsFrom hbank (by rintro _ ⟨⟩) c hc
    · rw [List.mem_singleton.1 hc]
      exact ⟨rfl, rfl⟩

/-- A four-bit image that looks at bank 3 and a triangle, whose records lie behind the list.  The
bank is selected first, or after the address modes. -/
theorem translate_agrees_late_bank :
    let steps : List Shared :=
      [.setTile 3 .clamp .mirror, .setTextureImage ⟨.ci4, 0, 4, 9⟩,
        .textureRectangle ⟨4, 8, 20, 24⟩, .fillTriangle ⟨(1, 2), (-3, 4), (5, 6)⟩ 48]
    let m := ((Rdram.zeroed 64).load 48 ⟨#[0, 1, 0, 2, 0xFF, 0xFD, 0, 4, 0, 5, 0, 6]⟩).memory
    let m' := (Instruction.write m 0 (allInstructions steps)).memory
    let structured := Directive.translate (allDirectives steps true)
    let inMemory := Bytecode.translate m' 0 6
    (∀ (fb : Framebuffer) (target : Rdram),
      (applyAll fb structured (.initial fb.width fb.height) target).2 =
        (applyAll fb inMemory (.initial fb.width fb.height) target).2) ∧
      structured.take 3 =
        [.setBank 3, .setAddressMode .clamp .mirror, .rect ⟨.ci4, 0, 4, 4, 1, 2⟩] ∧
      inMemory.take 3 =
        [.setAddressMode .clamp .mirror, .setBank 3, .rect ⟨.ci4, 0, 4, 4, 1, 2⟩] := by
  intro steps m m' structured inMemory
  have hvalid : ∀ step ∈ steps, step.Valid := by
    intro step hstep
    simp only [steps, List.mem_cons, List.not_mem_nil, or_false] at hstep
    rcases hstep with rfl | rfl | rfl | rfl
    · exact Nat.le_of_ble_eq_true rfl
    · exact ⟨by simp, by decide, by decide⟩
    · exact ⟨by decide, by decide, by decide, by decide⟩
    · exact ⟨⟨by decide, by decide⟩, ⟨by decide, by decide⟩, ⟨by decide, by decide⟩⟩
  have hrecords : ∀ step ∈ steps, step.RecordsIn m' := by
    intro step hstep
    simp only [steps, List.mem_cons, List.not_mem_nil, or_false] at hstep
    rcases hstep with rfl | rfl | rfl | rfl
    · trivial
    · trivial
    · trivial
    · exact ⟨by decide, rfl, rfl, rfl, rfl, rfl, rfl, rfl, rfl, rfl, rfl, rfl, rfl, trivial⟩
  have hfault : (Instruction.write m 0 (allInstructions steps)).fault = none := by rfl
  have hwrite : Instruction.write m 0 (allInstructions steps) = ⟨m', none⟩ :=
    congrArg (Written.mk m') hfault
  obtain ⟨hdraw, -, -⟩ := translate_agrees hvalid (by decide) true hwrite (.inr (by decide))
    hrecords (show (allInstructions steps).length ≤ 6 by decide)
  exact ⟨hdraw, rfl, by decide⟩

end Shared

end DisplayList

end DisplayRaster
