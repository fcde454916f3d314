import DisplayRaster.Proofs.Draw.Sequence

/-!
# When the bank is selected

Only four-bit textures look at the bank of the lookup table.  So a list of commands may select a
bank as soon as it is told to, or put it off until a command needs it: `Tracks b early late` says
that `late` is `early` with its selections put off in this way, where `b` is the bank selected by
`early` so far.  Both lists draw the same (`Tracks.applyAll_eq`).
-/

set_option autoImplicit false

namespace DisplayRaster

variable {μ : Type} [Memory μ]

/-- The state with another bank selected. -/
def RenderState.withBank (st : RenderState) (bank : UInt8) : RenderState := { st with bank := bank }

/-! ## Draws that ignore the bank -/

theorem texelAt_withBank {source : TexelSource} (h : source.format ≠ .ci4) (st : RenderState)
    (bank : UInt8) (m : μ) (s t : Nat) :
    texelAt (st.withBank bank) m source s t = texelAt st m source s t := by
  obtain ⟨format, texture⟩ := source
  cases format with
  | ci4 => exact absurd rfl h
  | _ => rfl

theorem texelFolded_withBank {source : TexelSource} (h : source.format ≠ .ci4) (st : RenderState)
    (bank : UInt8) (m : μ) (s t : Int) :
    texelFolded (st.withBank bank) m source s t = texelFolded st m source s t :=
  texelAt_withBank h st bank m _ _

theorem sample_withBank {source : TexelSource} (h : source.format ≠ .ci4) (st : RenderState)
    (bank : UInt8) (m : μ) (coord : TextureCoord) :
    sample (st.withBank bank) m source coord = sample st m source coord := by
  have hnearest : sampleNearest (st.withBank bank) m source coord =
      sampleNearest st m source coord := texelFolded_withBank h st bank m _ _
  have htaps : bilinearTaps (st.withBank bank) m source coord =
      bilinearTaps st m source coord := by
    simp only [bilinearTaps, texelFolded_withBank h]
  rw [sample, sample, hnearest, htaps]
  rfl

/-- A paint that does not look at the bank. -/
def Paint.IgnoresBank (paint : Paint) : Prop :=
  ∀ source, paint = .texels source → source.format ≠ .ci4

/-- A paint shows no texture but the one of the draw. -/
theorem Paint.ignoresBank_of_choose {st : RenderState} {source? : Option TexelSource}
    {paint : Paint} (h : Paint.choose st source? = some paint)
    (hsource : ∀ source, source? = some source → source.format ≠ .ci4) : paint.IgnoresBank := by
  rintro source rfl
  apply hsource
  rw [choose.eq_def] at h
  split at h
  · cases h
  · cases h
  · split at h
    · cases h
    · split at h
      · cases h
      · split at h
        · cases h
        · cases h
          rfl

theorem Paint.colorAtTexel_withBank {paint : Paint} (h : paint.IgnoresBank) (st : RenderState)
    (bank : UInt8) (m : μ) (s t : Int) :
    paint.colorAtTexel (st.withBank bank) m s t = paint.colorAtTexel st m s t := by
  cases paint with
  | flat color => rfl
  | texels source => exact texelAt_withBank (h source rfl) st bank m _ _

theorem Paint.colorAt_withBank {paint : Paint} (h : paint.IgnoresBank) (st : RenderState)
    (bank : UInt8) (m : μ) (coord : Unit → TextureCoord) :
    paint.colorAt (st.withBank bank) m coord = paint.colorAt st m coord := by
  cases paint with
  | flat color => rfl
  | texels source => exact sample_withBank (h source rfl) st bank m _

theorem drawRect_withBank {source : TexelSource} (h : source.format ≠ .ci4) (fb : Framebuffer)
    (st : RenderState) (bank : UInt8) (m : μ) (x y : Int) :
    drawRect fb (st.withBank bank) m source x y = drawRect fb st m source x y := by
  have hchoose : Paint.choose (st.withBank bank) (some source) =
      Paint.choose st (some source) := rfl
  rw [drawRect, drawRect, hchoose]
  split
  · next paint hpaint =>
    have hignores := Paint.ignoresBank_of_choose hpaint fun _ hs ↦ Option.some.inj hs ▸ h
    simp only [Paint.colorAtTexel_withBank hignores]
    rfl
  · rfl

theorem drawTiles_withBank (fb : Framebuffer) (st : RenderState) (bank : UInt8) (m : μ)
    (addr : UInt32) (size spacing : UInt8) (offset : UInt16) :
    drawTiles fb (st.withBank bank) m addr size spacing offset =
      drawTiles fb st m addr size spacing offset := by
  have hrect (texture : Texture) (m : μ) (x y : Int) :
      drawRect fb (st.withBank bank) m ⟨.rgba16, texture⟩ x y =
        drawRect fb st m ⟨.rgba16, texture⟩ x y :=
    drawRect_withBank (by simp) fb st bank m x y
  simp only [drawTiles, hrect]

theorem Oriented.fragment_withBank (tri : Oriented) {paint : Paint} (h : paint.IgnoresBank)
    (st : RenderState) (bank : UInt8) (projection : Projection) (tested : Bool) (m : μ)
    (x y : Int) :
    tri.fragment (st.withBank bank) paint projection tested m x y =
      tri.fragment st paint projection tested m x y := by
  simp only [fragment, Paint.colorAt_withBank h]

theorem drawTriangle_withBank {source? : Option TexelSource}
    (h : ∀ source, source? = some source → source.format ≠ .ci4) (fb : Framebuffer)
    (st : RenderState) (bank : UInt8) (m : μ) (v : Corners Vertex) (projection : Projection)
    (carriesDepth : Bool) :
    drawTriangle fb (st.withBank bank) m v source? projection carriesDepth =
      drawTriangle fb st m v source? projection carriesDepth := by
  have hchoose : Paint.choose (st.withBank bank) source? = Paint.choose st source? := rfl
  rw [drawTriangle, drawTriangle, hchoose]
  split
  · next paint tri hpaint htri =>
    have hignores := Paint.ignoresBank_of_choose hpaint h
    simp only [Oriented.fragment_withBank tri hignores]
    rfl
  · rfl

namespace Command

/-- Whether what a command draws depends on the bank. -/
def usesBank : Command → Bool
  | .rect r => r.format = .ci4
  | .texTriangle format .. => format = .ci4
  | _ => false

/-- Whether a command selects a bank. -/
def setsBank : Command → Bool
  | .setBank _ => true
  | _ => false

theorem draw_withBank {c : Command} (h : c.usesBank = false) (fb : Framebuffer) (st : RenderState)
    (bank : UInt8) (m : μ) : c.draw fb (st.withBank bank) m = c.draw fb st m := by
  cases c with
  | tiles addr size spacing offset => exact drawTiles_withBank fb st bank m addr size spacing offset
  | rect r =>
    have hformat : r.format ≠ .ci4 := by simpa [usesBank] using h
    exact drawRect_withBank (show r.source.format ≠ .ci4 from hformat) fb st bank m _ _
  | solidTriangle v => exact drawTriangle_withBank (by simp) fb st bank m v _ _
  | solidTriangleDepth v => exact drawTriangle_withBank (by simp) fb st bank m v _ _
  | texTriangle format projection texture v =>
    refine drawTriangle_withBank ?_ fb st bank m v _ _
    rintro source ⟨⟩
    have hformat : format ≠ .ci4 := by simpa [usesBank] using h
    cases format with
    | ci4 => exact absurd rfl hformat
    | _ => simp [TriangleFormat.texel]
  | texTriangleDepth projection texture v =>
    refine drawTriangle_withBank ?_ fb st bank m v _ _
    rintro source ⟨⟩
    simp
  | _ => rfl

theorem select_withBank {c : Command} (h : c.setsBank = false) (fb : Framebuffer) (st : RenderState)
    (bank : UInt8) (m : μ) :
    c.select fb (st.withBank bank) m = (c.select fb st m).withBank bank := by
  cases c with
  | setBank b => exact absurd h (by simp [setsBank])
  | _ => rfl

end Command

/-! ## Selections put off -/

/-- `late` is `early` with every selection of a bank put off until a command uses it.  `bank` is the
bank that `early` has selected so far. -/
inductive Tracks : (bank : UInt8) → (early late : List Command) → Prop where
  | nil (bank : UInt8) : Tracks bank [] []
  /-- Other commands are the same. -/
  | same {bank : UInt8} {c : Command} {early late : List Command} (hsets : c.setsBank = false)
      (huses : c.usesBank = false) (h : Tracks bank early late) :
      Tracks bank (c :: early) (c :: late)
  /-- Before a command that uses the bank it is selected, however often. -/
  | use {bank : UInt8} {c : Command} {early late : List Command} (huses : c.usesBank = true)
      (h : Tracks bank early late) : Tracks bank (c :: early) (.setBank bank :: c :: late)
  /-- A selection is left out. -/
  | select {bank next : UInt8} {early late : List Command} (hnext : next &&& 0xF = next)
      (h : Tracks next early late) : Tracks bank (.setBank next :: early) late

namespace Tracks

open Command (applyAll)

variable {bank : UInt8} {early late : List Command}

/-- A command that uses the bank selects nothing. -/
theorem select_of_usesBank {c : Command} (h : c.usesBank = true) (fb : Framebuffer)
    (st : RenderState) (m : μ) : c.select fb st m = st := by
  cases c with
  | rect r => rfl
  | texTriangle format projection texture v => rfl
  | _ => exact absurd h (by simp [Command.usesBank])

/-- **Putting off the selection of a bank does not change what is drawn.** -/
theorem applyAll_eq (h : Tracks bank early late) (hbank : bank &&& 0xF = bank) (fb : Framebuffer)
    (st : RenderState) (m : μ) :
    (applyAll fb early (st.withBank bank) m).2 = (applyAll fb late st m).2 := by
  induction h generalizing st m with
  | nil bank => rfl
  | same hsets huses h ih =>
    rw [Command.applyAll_cons, Command.applyAll_cons, Command.select_withBank hsets,
      Command.draw_withBank huses]
    exact ih hbank _ _
  | @use bank c early late huses h ih =>
    have hselect : (Command.setBank bank).select fb st m = st.withBank bank :=
      congrArg st.withBank hbank
    have hdraw : (Command.setBank bank).draw fb st m = m := rfl
    rw [Command.applyAll_cons, Command.applyAll_cons, Command.applyAll_cons, hselect, hdraw,
      select_of_usesBank huses]
    exact ih hbank (st.withBank bank) _
  | @select bank next early late hnext h ih =>
    have hselect : (Command.setBank next).select fb (st.withBank bank) m = st.withBank next :=
      congrArg st.withBank hnext
    rw [Command.applyAll_cons, hselect]
    exact ih hnext st m

/-- The same commands may follow, if none of them selects or uses a bank. -/
theorem append_same (h : Tracks bank early late) {cs : List Command}
    (hcs : ∀ c ∈ cs, c.setsBank = false ∧ c.usesBank = false) :
    Tracks bank (early ++ cs) (late ++ cs) := by
  induction h with
  | nil bank =>
    induction cs with
    | nil => exact .nil bank
    | cons c cs ih =>
      obtain ⟨hsets, huses⟩ := hcs c (by simp)
      exact .same hsets huses (ih fun c' hc ↦ hcs c' (by simp [hc]))
  | same hsets huses h ih => exact .same hsets huses ih
  | use huses h ih => exact .use huses ih
  | select hnext h ih => exact .select hnext ih

/-- Apart from the selections the two lists are the same. -/
theorem filter_eq (h : Tracks bank early late) :
    early.filter (fun c ↦ !c.setsBank) = late.filter (fun c ↦ !c.setsBank) := by
  induction h with
  | nil bank => rfl
  | same hsets huses h ih => rw [List.filter_cons, List.filter_cons, ih]
  | use huses h ih =>
    rw [List.filter_cons, List.filter_cons, List.filter_cons, ih]
    rfl
  | select hnext h ih =>
    rw [List.filter_cons, ih]
    rfl

/-- If no command selects or uses a bank, the two lists are the same. -/
theorem eq_of_no_bank (h : Tracks bank early late)
    (hearly : ∀ c ∈ early, c.setsBank = false ∧ c.usesBank = false) : early = late := by
  induction h with
  | nil bank => rfl
  | same hsets huses h ih => rw [ih fun c hc ↦ hearly c (by simp [hc])]
  | @use bank c early late huses h ih =>
    have := (hearly c (by simp)).2
    rw [huses] at this
    cases this
  | @select bank next early late hnext h ih =>
    have := (hearly (.setBank next) (by simp)).1
    cases this

end Tracks

end DisplayRaster
