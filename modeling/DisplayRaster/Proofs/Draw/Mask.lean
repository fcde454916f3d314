import DisplayRaster.Proofs.Draw.Fragments

/-!
# The scissor is a mask

Every draw clips to the scissor in its own way.  A gradient and a rectangle visit only what lies
inside, a triangle visits the whole framebuffer and leaves each fragment outside at the last moment,
and a tile grid starts off screen.  None of this shifts anything: at a pixel inside the scissor a
draw has the same fragments as with a scissor as large as the framebuffer
(`Command.filter_isAt_fragments`), so what it makes of the pixel and of its sample is the same, and
outside the scissor nothing happens (`Command.draw_scissor`).
-/

set_option autoImplicit false

namespace DisplayRaster

open Rdram

/-- The state with another scissor. -/
def RenderState.withScissor (st : RenderState) (r : Scissor) : RenderState :=
  { st with scissor := r }

variable {fb : Framebuffer} {st : RenderState} {m : Rdram} {r r' : Scissor} {x y : Int}

/-! ## Fragments at a pixel inside -/

section

variable (hr : r.contains x y = true) (hr' : r'.contains x y = true)

include hr hr'

/-- A rectangle shows the same texel at a pixel inside both scissors. -/
theorem filter_isAt_rectFragments_withScissor (source : TexelSource) (left top : Int) :
    (rectFragments (st.withScissor r) m source left top).filter (Fragment.isAt x y) =
      (rectFragments (st.withScissor r') m source left top).filter (Fragment.isAt x y) := by
  classical
  cases hchoose : Paint.choose st (some source) with
  | none =>
    have hnone (r : Scissor) : rectFragments (st.withScissor r) m source left top = [] := by
      rw [rectFragments]
      have h : Paint.choose (st.withScissor r) (some source) = none := hchoose
      rw [h]
    rw [hnone r, hnone r']
  | some paint =>
    have hregion : (rectRegion r source.texture left top).Contains x y ↔
        (rectRegion r' source.texture left top).Contains x y := by
      rw [contains_rectRegion, contains_rectRegion, hr, hr']
    refine (filter_isAt_rectFragments (show Paint.choose (st.withScissor r) _ = _ from hchoose)
      x y).trans (Eq.trans ?_ (filter_isAt_rectFragments
        (show Paint.choose (st.withScissor r') _ = _ from hchoose) x y).symm)
    exact ite_congr (propext hregion) (fun _ ↦ rfl) fun _ ↦ rfl

/-- A grid has the same tiles whatever the scissor. -/
theorem filter_isAt_tileFragments_withScissor (addr : UInt32) (size spacing : UInt8)
    (offset : UInt16) :
    (tileFragments fb (st.withScissor r) m addr size spacing offset).filter (Fragment.isAt x y) =
      (tileFragments fb (st.withScissor r') m addr size spacing offset).filter
        (Fragment.isAt x y) := by
  rw [tileFragments, tileFragments]
  split
  · rfl
  · simp only [List.filter_flatMap, filter_isAt_rectFragments_withScissor hr hr']

/-- A gradient has the color of the column at every pixel inside. -/
theorem filter_isAt_gradientFragments_withScissor (left right : UInt16) :
    (gradientFragments fb (st.withScissor r) left right).filter (Fragment.isAt x y) =
      (gradientFragments fb (st.withScissor r') left right).filter (Fragment.isAt x y) := by
  have hmem {r : Scissor} (hr : r.contains x y = true) : (x, y) ∈ r.region.columnMajor := by
    rw [Region.mem_columnMajor]
    exact Scissor.contains_eq_true.1 hr
  have hat {r : Scissor} (hr : r.contains x y = true) :=
    (filter_isAt_filterMap (Region.nodup_columnMajor r.region) (F := fun p ↦ some (Fragment.mk p.1
      p.2 (rampColor (Color.ofPacked left) (Color.ofPacked right) (coordWord p.1) fb.width) false
      none)) (fun p f hf ↦ by cases hf; exact ⟨rfl, rfl⟩) x y).trans (if_pos (hmem hr))
  exact (hat hr).trans (hat hr').symm

/-- **A draw has the same fragments at a pixel inside both scissors.** -/
theorem Command.filter_isAt_fragments (c : Command) :
    (c.fragments fb (st.withScissor r) m).filter (Fragment.isAt x y) =
      (c.fragments fb (st.withScissor r') m).filter (Fragment.isAt x y) := by
  cases c with
  | gradient left right => exact filter_isAt_gradientFragments_withScissor hr hr' left right
  | tiles addr size spacing offset =>
    exact filter_isAt_tileFragments_withScissor hr hr' addr size spacing offset
  | rect rect => exact filter_isAt_rectFragments_withScissor hr hr' _ _ _
  | _ => rfl

end

/-! ## Two runs -/

theorem Command.scissor_drawState (c : Command) (st : RenderState) :
    (c.drawState st).scissor = st.scissor := by
  cases c <;> rfl

theorem Command.not_visible_drawState {c : Command}
    (h : ¬ (r.contains x y = true ∧ m.Fits (fb.addressOf x y) 2)) :
    ¬ Visible fb (c.drawState (st.withScissor r)) m x y := by
  have hscissor : (c.drawState (st.withScissor r)).scissor = r := c.scissor_drawState _
  intro hv
  have hxy := hv.unclipped
  rw [hscissor] at hxy
  exact h ⟨hxy, hv.fits⟩

theorem Command.depth_drawState (c : Command) (st : RenderState) :
    (c.drawState st).depth = st.depth := by
  cases c <;> rfl

theorem Command.shade_drawState (c : Command) :
    Fragment.shade (c.drawState (st.withScissor r)) =
      Fragment.shade (c.drawState (st.withScissor r')) := by
  cases c <;> rfl

theorem Scissor.contains_full (hfb : fb.Signed) (hxy : fb.contains x y = true) :
    (Scissor.full fb.width fb.height).contains x y = true := by
  rw [Framebuffer.contains, inExtent_eq_true] at hxy
  rw [contains_eq_true]
  have h0 : (0 : Int32).toInt = 0 := rfl
  simp only [full, toInt_toInt32_of_lt hfb.width_lt, toInt_toInt32_of_lt hfb.height_lt]
  omega

section

variable {c : Command} (hpaints : c.paints = true) (hr : r.Inside fb)
  (hseparate : Separate fb st.depth)
  (hsource : ∀ source, c.source? = some source → source.Apart fb st.depth) (m : Rdram)

include hpaints hr hsource

theorem Command.draw_withScissor :
    c.draw fb (st.withScissor r) m = writeAll fb (c.drawState (st.withScissor r))
      (c.fragments fb (st.withScissor r) m) m := by
  have hinside : (st.withScissor r).scissor.Inside fb := hr
  have hapart : ∀ source, c.source? = some source →
      source.Apart fb (st.withScissor r).depth := hsource
  exact draw_eq_writeAll hpaints hinside hapart m

include hseparate

/-- The cell of a pixel inside the scissor after a draw. -/
theorem Command.cellAt_draw (hxy : r.contains x y = true) (hfits : m.Fits (fb.addressOf x y) 2) :
    cellAt fb st.depth (c.draw fb (st.withScissor r) m) x y =
      ((c.fragments fb (st.withScissor r) m).filter (Fragment.isAt x y)).foldl
        (Fragment.shade (c.drawState (st.withScissor r)) (st.depth.keeps m x y))
        (cellAt fb st.depth m x y) := by
  have hdepth : (c.drawState (st.withScissor r)).depth = st.depth := c.depth_drawState _
  have hscissor : (c.drawState (st.withScissor r)).scissor = r := c.scissor_drawState _
  have hv : Visible fb (c.drawState (st.withScissor r)) m x y :=
    ⟨hr x y hxy, by rwa [hscissor], hfits⟩
  have h := cellAt_writeAll (hdepth.symm ▸ hseparate) hv (c.fragments fb (st.withScissor r) m)
  rwa [hdepth, ← c.draw_withScissor hpaints hr hsource m] at h

/-- A draw keeps the pixels that are not visible. -/
theorem Command.read16_draw_pixel (hfb : fb.contains x y = true)
    (hv : ¬ (r.contains x y = true ∧ m.Fits (fb.addressOf x y) 2)) :
    Memory.read16 (c.draw fb (st.withScissor r) m) (fb.addressOf x y) =
      Memory.read16 m (fb.addressOf x y) := by
  have hdepth : (c.drawState (st.withScissor r)).depth = st.depth := c.depth_drawState _
  rw [c.draw_withScissor hpaints hr hsource m]
  exact read16_pixel_of_not_visible (hdepth.symm ▸ hseparate)
    (not_visible_drawState hv) _ hfb

/-- A draw keeps the samples of the pixels that are not visible. -/
theorem Command.read16_draw_sample (hz : st.depth.contains x y = true)
    (hv : ¬ (r.contains x y = true ∧ m.Fits (fb.addressOf x y) 2)) :
    Memory.read16 (c.draw fb (st.withScissor r) m) (st.depth.addressOf x y) =
      Memory.read16 m (st.depth.addressOf x y) := by
  have hdepth : (c.drawState (st.withScissor r)).depth = st.depth := c.depth_drawState _
  have h := read16_sample_of_not_visible (hdepth.symm ▸ hseparate) (not_visible_drawState hv)
    (c.fragments fb (st.withScissor r) m) (hdepth.symm ▸ hz)
  rwa [hdepth, ← c.draw_withScissor hpaints hr hsource m] at h

end

/-- **The scissor is a pure mask.**  A draw with the scissor `r` makes of every pixel inside `r`,
and of its sample, what it makes of it with a scissor as large as the framebuffer, and leaves every
pixel outside `r`, and its sample, as it was. -/
theorem Command.draw_scissor {c : Command} (hpaints : c.paints = true) (hr : r.Inside fb)
    (hseparate : Separate fb st.depth)
    (hsource : ∀ source, c.source? = some source → source.Apart fb st.depth) (m : Rdram) :
    let clipped := c.draw fb (st.withScissor r) m
    let whole := c.draw fb (st.withScissor (.full fb.width fb.height)) m
    (∀ x y, r.contains x y = true →
      Memory.read16 clipped (fb.addressOf x y) = Memory.read16 whole (fb.addressOf x y) ∧
      (st.depth.contains x y = true → Memory.read16 clipped (st.depth.addressOf x y) =
        Memory.read16 whole (st.depth.addressOf x y))) ∧
    ∀ x y, r.contains x y = false →
      (fb.contains x y = true →
        Memory.read16 clipped (fb.addressOf x y) = Memory.read16 m (fb.addressOf x y)) ∧
      (st.depth.contains x y = true → Memory.read16 clipped (st.depth.addressOf x y) =
        Memory.read16 m (st.depth.addressOf x y)) := by
  refine ⟨fun x y hxy ↦ ?_, fun x y hxy ↦ ?_⟩
  · have hfb := hr x y hxy
    have hsigned := hseparate.pixels.signed hfb
    have hfull : (Scissor.full fb.width fb.height).contains x y = true :=
      Scissor.contains_full hsigned hfb
    have hinside := Scissor.inside_full hsigned
    by_cases hfits : m.Fits (fb.addressOf x y) 2
    · have hsize : (c.draw fb (st.withScissor r) m).size =
          (c.draw fb (st.withScissor (.full fb.width fb.height)) m).size :=
        (c.size_draw fb _ m).trans (c.size_draw fb _ m).symm
      have hcell : cellAt fb st.depth (c.draw fb (st.withScissor r) m) x y =
          cellAt fb st.depth (c.draw fb (st.withScissor (.full fb.width fb.height)) m) x y := by
        rw [cellAt_draw hpaints hr hseparate hsource m hxy hfits,
          cellAt_draw hpaints hinside hseparate hsource m hfull hfits,
          c.filter_isAt_fragments hxy hfull, c.shade_drawState]
      refine ⟨read16_eq_of_halfOr_eq hsize (congrArg Cell.color hcell), fun hz ↦ ?_⟩
      have hstored := congrArg Cell.depth hcell
      simp only [cellAt, DepthBuffer.stored, if_pos hz] at hstored
      exact read16_eq_of_halfOr_eq hsize hstored
    · -- the pixel is not in memory, so neither draw can write it
      have hv {r : Scissor} : ¬ (r.contains x y = true ∧ m.Fits (fb.addressOf x y) 2) :=
        fun h ↦ hfits h.2
      refine ⟨?_, fun hz ↦ ?_⟩
      · rw [read16_draw_pixel hpaints hr hseparate hsource m hfb hv,
          read16_draw_pixel hpaints hinside hseparate hsource m hfb hv]
      · rw [read16_draw_sample hpaints hr hseparate hsource m hz hv,
          read16_draw_sample hpaints hinside hseparate hsource m hz hv]
  · have hv : ¬ (r.contains x y = true ∧ m.Fits (fb.addressOf x y) 2) := by
      rw [hxy]
      exact fun h ↦ Bool.false_ne_true h.1
    exact ⟨fun hfb ↦ read16_draw_pixel hpaints hr hseparate hsource m hfb hv,
      fun hz ↦ read16_draw_sample hpaints hr hseparate hsource m hz hv⟩

/-- A textured triangle with depth that is cut off on its left. -/
theorem Command.draw_scissor_left :
    let fb : Framebuffer := ⟨0, 4, 4, 4⟩
    let st : RenderState :=
      { RenderState.initial 4 4 with
        filter := .bilinear, blend := .average, depthEnabled := true, depth := ⟨64, 4, 4⟩ }
    let r : Scissor := Scissor.clamped ⟨1, -3, 9, 3⟩ 4 4
    let c : Command := .texTriangleDepth .affine ⟨128, 2, 2, 2⟩
      ⟨.textured 0 0 0 0, .textured 4 0 4 0, .textured 0 4 0 4⟩
    let m := (Memory.write16 (DepthBuffer.clear st.depth (Rdram.zeroed 256) 9) 128 0xF801).memory
    let clipped := c.draw fb (st.withScissor r) m
    let whole := c.draw fb (st.withScissor (.full 4 4)) m
    Memory.read16 clipped (fb.addressOf 1 0) = Memory.read16 whole (fb.addressOf 1 0) ∧
      Memory.read16 clipped (fb.addressOf 0 0) = Memory.read16 m (fb.addressOf 0 0) ∧
      Memory.read16 whole (fb.addressOf 0 0) ≠ Memory.read16 m (fb.addressOf 0 0) := by
  intro fb st r c m clipped whole
  have hfb : Rows fb.origin fb.stride fb.height.toNat := ⟨by decide, by decide⟩
  have hz : Rows st.depth.addr st.depth.width st.depth.height.toNat := ⟨by decide, by decide⟩
  have hseparate : Separate fb st.depth := separate_of_le hfb (by decide) hz (by decide)
  have hapart : TexelSource.Apart ⟨.rgba16, ⟨128, 2, 2, 2⟩⟩ fb st.depth :=
    TexelSource.apart_of_le ⟨by decide, by decide⟩ (by decide) hfb (by decide) (by decide) hz
      (by decide)
  have hsource : ∀ source, c.source? = some source → source.Apart fb st.depth := by
    intro source hs
    rwa [← Option.some.inj hs]
  have hsigned : fb.Signed := ⟨by decide, by decide⟩
  have hr : r.Inside fb := Scissor.inside_clamped hsigned ⟨1, -3, 9, 3⟩
  have h := draw_scissor (show c.paints = true from rfl) hr hseparate hsource m
  exact ⟨(h.1 1 0 (by decide)).1, (h.2 0 0 (by decide)).1 (by decide), by decide +kernel⟩

end DisplayRaster
