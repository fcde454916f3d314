import DisplayRaster.Proofs.Draw.Places
import Mathlib.Data.List.Basic

/-!
# Fragments cell by cell

A fragment changes the cell of its own pixel and nothing else, and what the cell becomes depends on
what the cell was and on nothing else.  `Cell` is the color and the depth of a pixel, `cellAt` reads
them from memory, and `Fragment.shade` is what a fragment makes of a cell.

So a sequence of fragments can be followed at one pixel without looking at the others: the cell
afterwards is the fold of `Fragment.shade` over the fragments at this pixel
(`cellAt_writeAll`).  Fragments that are not `Visible` change nothing.
-/

set_option autoImplicit false

namespace DisplayRaster

open Rdram

/-! ## Cells -/

/-- The color and the depth of a pixel. -/
structure Cell where
  color : UInt16
  depth : UInt16
  deriving DecidableEq

/-- The cell of a pixel in memory. -/
def cellAt (fb : Framebuffer) (z : DepthBuffer) (m : Rdram) (x y : Int) : Cell where
  color := Memory.halfOr 0 m (fb.addressOf x y)
  depth := z.stored m x y

/-- Whether the depth of a pixel can be stored. -/
def DepthBuffer.keeps (z : DepthBuffer) (m : Rdram) (x y : Int) : Bool :=
  z.contains x y && decide (m.Fits (z.addressOf x y) 2)

/-- A pixel that can be drawn on: it lies in the framebuffer, in the scissor and in memory. -/
structure Visible (fb : Framebuffer) (st : RenderState) (m : Rdram) (x y : Int) : Prop where
  drawable : fb.contains x y = true
  unclipped : st.scissor.contains x y = true
  fits : m.Fits (fb.addressOf x y) 2

namespace Fragment

/-- The color that a fragment leaves on a color of a visible pixel, or none if it leaves none. -/
def survives (st : RenderState) (f : Fragment) (old : UInt16) : Option UInt16 :=
  if f.punchThrough && st.blend = .off && f.color &&& 1 = 0 then none
  else st.blend.blend old f.color

/-- The color of a visible pixel after a fragment without depth. -/
def paintOver (st : RenderState) (f : Fragment) (old : UInt16) : UInt16 :=
  (f.survives st old).getD old

/-- The cell of a visible pixel after a fragment.  A depth is left behind where `kept` says so. -/
def shade (st : RenderState) (kept : Bool) (c : Cell) (f : Fragment) : Cell :=
  match f.depth with
  | none => { c with color := f.paintOver st c.color }
  | some depth =>
    if depth < c.depth then
      match f.survives st c.color with
      | none => c
      | some color => ⟨color, if kept then depth else c.depth⟩
    else c

/-- Whether a fragment is at a pixel. -/
def isAt (x y : Int) (f : Fragment) : Bool := f.x = x && f.y = y

theorem isAt_eq_true {x y : Int} {f : Fragment} : f.isAt x y = true ↔ f.x = x ∧ f.y = y := by
  simp [isAt]

end Fragment

variable {fb : Framebuffer} {st : RenderState} {m m₁ : Rdram} {x y : Int} {f : Fragment}

theorem visible_congr (hsize : m₁.size = m.size) (hv : Visible fb st m x y) :
    Visible fb st m₁ x y :=
  ⟨hv.drawable, hv.unclipped, (fits_congr hsize).2 hv.fits⟩

theorem DepthBuffer.keeps_congr {z : DepthBuffer} (hsize : m₁.size = m.size) :
    z.keeps m₁ x y = z.keeps m x y := by
  rw [keeps, keeps, decide_eq_decide.2 (fits_congr hsize)]

theorem DepthBuffer.stored_congr {z : DepthBuffer} (hsize : m₁.size = m.size)
    (h : z.contains x y = true → ∀ i, InHalf (z.addressOf x y) i → m₁.byte i = m.byte i) :
    z.stored m₁ x y = z.stored m x y := by
  rw [stored, stored]
  split
  · next hc => exact halfOr_congr far hsize (h hc)
  · rfl

/-- Storing a depth leaves the samples at other places alone. -/
theorem DepthBuffer.stored_store_of_ne {z : DepthBuffer}
    (heven : ∀ {x y}, z.contains x y = true → (z.addressOf x y).toNat % 2 = 0) (m : Rdram)
    {x y x' y' : Int} (depth : UInt16)
    (hne : z.contains x y = true → z.contains x' y' = true →
      physical (z.addressOf x y) ≠ physical (z.addressOf x' y')) :
    z.stored (z.store m x y depth) x' y' = z.stored m x' y' := by
  rw [store]
  split
  · next hxy =>
    refine stored_congr (size_write16 m _ depth) fun hxy' i hi ↦ ?_
    have hframe := Frame.write16 (s := InHalf (z.addressOf x y)) m depth fun _ hj ↦ hj
    exact hframe.byte_eq i fun hi' ↦
      not_inHalf_of_ne (heven hxy) (heven hxy') (hne hxy hxy') hi' hi
  · rfl

/-- A cell depends on its own bytes only. -/
theorem cellAt_congr {z : DepthBuffer} (hsize : m₁.size = m.size)
    (h : ∀ i, InCell fb z x y i → m₁.byte i = m.byte i) :
    cellAt fb z m₁ x y = cellAt fb z m x y := by
  rw [cellAt, cellAt, halfOr_congr 0 hsize fun i hi ↦ h i (.inl hi),
    DepthBuffer.stored_congr hsize fun hc i hi ↦ h i (.inr ⟨hc, hi⟩)]

/-! ## One fragment -/

theorem Fragment.blended_of_visible (hv : Visible fb st m f.x f.y) :
    f.blended fb st m = f.survives st (Memory.halfOr 0 m (fb.addressOf f.x f.y)) := by
  rw [blended, hv.drawable, hv.unclipped]
  rfl

/-- A fragment on a visible pixel is written unless it leaves no color. -/
theorem Fragment.putPixel_of_visible (hv : Visible fb st m f.x f.y) :
    f.putPixel fb st m =
      match f.survives st (Memory.halfOr 0 m (fb.addressOf f.x f.y)) with
      | none => (false, m)
      | some color => (true, (Memory.write16 m (fb.addressOf f.x f.y) color).memory) := by
  rw [putPixel, blended_of_visible hv]
  cases f.survives st (Memory.halfOr 0 m (fb.addressOf f.x f.y)) with
  | none => rfl
  | some color =>
    simp only
    rw [write16_eq_of_fits hv.fits color]

/-- A fragment on a pixel that is not visible is not written. -/
theorem Fragment.putPixel_of_not_visible (hv : ¬ Visible fb st m f.x f.y) :
    f.putPixel fb st m = (false, m) := by
  rw [putPixel]
  split
  · rfl
  · next color hblended =>
    rw [blended] at hblended
    split at hblended
    · cases hblended
    · next hin =>
      simp only [Bool.not_eq_true', Bool.not_eq_false, Bool.and_eq_true] at hin
      have hfits : ¬ m.Fits (fb.addressOf f.x f.y) 2 := fun h ↦ hv ⟨hin.1, hin.2, h⟩
      rw [write16_eq_of_not_fits hfits color]

/-- **What is not visible changes nothing.** -/
theorem Fragment.write_of_not_visible (hv : ¬ Visible fb st m f.x f.y) : f.write fb st m = m := by
  rw [write, putPixel_of_not_visible hv]
  split
  · rfl
  · split
    · rfl
    · rfl

/-- The color of a fragment changes no byte outside its pixel. -/
theorem Fragment.frame_putPixel_inHalf (m : Rdram) (f : Fragment) :
    Frame (InHalf (fb.addressOf f.x f.y)) m (f.putPixel fb st m).2 := by
  by_cases hv : Visible fb st m f.x f.y
  · rw [putPixel_of_visible hv]
    split
    · exact Frame.refl _ m
    · exact Frame.write16 m _ fun i hi ↦ hi
  · rw [putPixel_of_not_visible hv]
    exact Frame.refl _ m

/-- A fragment changes no byte outside the cell of its pixel. -/
theorem Fragment.frame_write_inCell (m : Rdram) (f : Fragment) :
    Frame (fun i ↦ Visible fb st m f.x f.y ∧ InCell fb st.depth f.x f.y i) m
      (f.write fb st m) := by
  by_cases hv : Visible fb st m f.x f.y
  · refine (?_ : Frame (InCell fb st.depth f.x f.y) m (f.write fb st m)).mono fun i hi ↦ ⟨hv, hi⟩
    have hput : Frame (InCell fb st.depth f.x f.y) m (f.putPixel fb st m).2 :=
      (frame_putPixel_inHalf m f).mono fun i hi ↦ .inl hi
    rw [write]
    split
    · exact hput
    · next depth _ =>
      split
      · split
        · next heq =>
          rw [heq] at hput
          refine hput.trans ?_
          rw [DepthBuffer.store]
          split
          · next hc => exact Frame.write16 _ depth fun i hi ↦ .inr ⟨hc, hi⟩
          · exact Frame.refl _ _
        · next heq =>
          rw [heq] at hput
          exact hput
      · exact Frame.refl _ m
  · rw [write_of_not_visible hv]
    exact Frame.refl _ m

/-- The cell after its pixel has been given a color. -/
theorem cellAt_write16 (h : Separate fb st.depth) (hv : Visible fb st m x y) (color : UInt16) :
    cellAt fb st.depth (Memory.write16 m (fb.addressOf x y) color).memory x y =
      { cellAt fb st.depth m x y with color := color } := by
  have hsize : (Memory.write16 m (fb.addressOf x y) color).memory.size = m.size :=
    size_write16 m _ color
  rw [cellAt, cellAt, halfOr_write16 0 hv.fits, DepthBuffer.stored_congr hsize fun hc i hi ↦ ?_]
  refine (Frame.write16 (s := InHalf (fb.addressOf x y)) m color fun _ hj ↦ hj).byte_eq i
    fun hpixel ↦ ?_
  exact h.pixel_not_inSample hv.drawable hc hpixel hi

/-- The cell after its depth has been stored. -/
theorem cellAt_store (h : Separate fb st.depth) (hv : Visible fb st m x y) (depth : UInt16) :
    cellAt fb st.depth (st.depth.store m x y depth) x y =
      { cellAt fb st.depth m x y with
        depth := if st.depth.keeps m x y then depth else (cellAt fb st.depth m x y).depth } := by
  by_cases hc : st.depth.contains x y = true
  · rw [DepthBuffer.store, if_pos hc]
    have hsize : (Memory.write16 m (st.depth.addressOf x y) depth).memory.size = m.size :=
      size_write16 m _ depth
    have hcolor : Memory.halfOr 0 (Memory.write16 m (st.depth.addressOf x y) depth).memory
        (fb.addressOf x y) = Memory.halfOr 0 m (fb.addressOf x y) := by
      refine halfOr_congr 0 hsize fun i hi ↦ ?_
      refine (Frame.write16 (s := InHalf (st.depth.addressOf x y)) m depth fun _ hj ↦ hj).byte_eq i
        fun hsample ↦ ?_
      exact h.pixel_not_inSample hv.drawable hc hi hsample
    rw [cellAt, cellAt, hcolor]
    by_cases hf : m.Fits (st.depth.addressOf x y) 2
    · have hkeeps : st.depth.keeps m x y = true := by
        rw [DepthBuffer.keeps, hc, decide_eq_true hf]
        rfl
      rw [hkeeps, if_pos rfl, DepthBuffer.stored, if_pos hc, halfOr_write16 _ hf]
    · have hkeeps : st.depth.keeps m x y = false := by
        rw [DepthBuffer.keeps, hc, decide_eq_false hf]
        rfl
      rw [hkeeps, if_neg (by decide), write16_eq_of_not_fits hf]
  · have hkeeps : st.depth.keeps m x y = false := by
      rw [DepthBuffer.keeps, Bool.eq_false_iff.2 hc]
      rfl
    rw [DepthBuffer.store, if_neg hc, hkeeps, if_neg (by decide)]

/-- **A visible fragment shades the cell of its pixel.** -/
theorem cellAt_write (h : Separate fb st.depth) (hv : Visible fb st m f.x f.y) :
    cellAt fb st.depth (f.write fb st m) f.x f.y =
      f.shade st (st.depth.keeps m f.x f.y) (cellAt fb st.depth m f.x f.y) := by
  have hcolor : Memory.halfOr 0 m (fb.addressOf f.x f.y) = (cellAt fb st.depth m f.x f.y).color :=
    rfl
  rw [Fragment.write, Fragment.shade, Fragment.putPixel_of_visible hv, hcolor]
  cases f.depth with
  | none =>
    simp only [Fragment.paintOver]
    cases f.survives st (cellAt fb st.depth m f.x f.y).color with
    | none => rfl
    | some color => exact cellAt_write16 h hv color
  | some depth =>
    have hpasses : st.depth.passes m f.x f.y depth =
        decide (depth < (cellAt fb st.depth m f.x f.y).depth) := rfl
    simp only [hpasses, decide_eq_true_eq]
    split
    · cases f.survives st (cellAt fb st.depth m f.x f.y).color with
      | none => rfl
      | some color =>
        have hsize : (Memory.write16 m (fb.addressOf f.x f.y) color).memory.size = m.size :=
          size_write16 m _ color
        simp only
        rw [cellAt_store h (visible_congr hsize hv), cellAt_write16 h hv,
          DepthBuffer.keeps_congr hsize]
    · rfl

/-- A fragment leaves the cells of other pixels alone. -/
theorem cellAt_write_of_ne (h : Separate fb st.depth) (hxy : fb.contains x y = true)
    (hne : ¬ (f.x = x ∧ f.y = y)) :
    cellAt fb st.depth (f.write fb st m) x y = cellAt fb st.depth m x y := by
  have hframe : Frame _ m (f.write fb st m) := Fragment.frame_write_inCell m f
  refine cellAt_congr hframe.size_eq fun i hi ↦ hframe.byte_eq i ?_
  rintro ⟨hv, hf⟩
  rcases hi with hi | ⟨hc, hi⟩
  · exact h.pixel_not_inCell hxy hv.drawable hne hi hf
  · exact h.sample_not_inCell hc hv.drawable hne hi hf

/-! ## Sequences of fragments -/

/-- The memory after a sequence of fragments. -/
def writeAll (fb : Framebuffer) (st : RenderState) (fs : List Fragment) (m : Rdram) : Rdram :=
  fs.foldl (Fragment.write fb st) m

theorem writeAll_append (fb : Framebuffer) (st : RenderState) (fs gs : List Fragment) (m : Rdram) :
    writeAll fb st (fs ++ gs) m = writeAll fb st gs (writeAll fb st fs m) :=
  List.foldl_append

/-- A sequence of fragments changes no byte outside the cells of its visible pixels. -/
theorem frame_writeAll (fs : List Fragment) (m : Rdram) :
    Frame (fun i ↦ ∃ f ∈ fs, Visible fb st m f.x f.y ∧ InCell fb st.depth f.x f.y i) m
      (writeAll fb st fs m) := by
  induction fs generalizing m with
  | nil => exact Frame.refl _ m
  | cons f fs ih =>
    have hf : Frame _ m (f.write fb st m) := Fragment.frame_write_inCell m f
    refine (hf.mono fun i hi ↦ ⟨f, by simp, hi⟩).trans ((ih (f.write fb st m)).mono ?_)
    rintro i ⟨g, hg, hv, hi⟩
    exact ⟨g, by simp [hg], visible_congr hf.size_eq.symm hv, hi⟩

/-- **The cell of a visible pixel after a sequence of fragments** is shaded by the fragments at this
pixel, in order. -/
theorem cellAt_writeAll (h : Separate fb st.depth) (hv : Visible fb st m x y)
    (fs : List Fragment) :
    cellAt fb st.depth (writeAll fb st fs m) x y =
      (fs.filter (Fragment.isAt x y)).foldl (Fragment.shade st (st.depth.keeps m x y))
        (cellAt fb st.depth m x y) := by
  induction fs generalizing m with
  | nil => rfl
  | cons f fs ih =>
    have hsize : (f.write fb st m).size = m.size := (Fragment.frame_write_inCell m f).size_eq
    show cellAt fb st.depth (writeAll fb st fs (f.write fb st m)) x y = _
    rw [ih (visible_congr hsize hv), DepthBuffer.keeps_congr hsize]
    by_cases hat : f.x = x ∧ f.y = y
    · rw [List.filter_cons_of_pos (Fragment.isAt_eq_true.2 hat), List.foldl_cons]
      obtain ⟨rfl, rfl⟩ := hat
      rw [cellAt_write h hv]
    · rw [List.filter_cons_of_neg (by simpa [Fragment.isAt_eq_true] using hat),
        cellAt_write_of_ne h hv.drawable hat]

section

variable (h : Separate fb st.depth) (hv : ¬ Visible fb st m x y) (fs : List Fragment)

include h hv

theorem byte_writeAll_of_inPixel (hxy : fb.contains x y = true) {i : Nat}
    (hi : InHalf (fb.addressOf x y) i) : (writeAll fb st fs m).byte i = m.byte i := by
  refine (frame_writeAll fs m).byte_eq i ?_
  rintro ⟨f, -, hf, hin⟩
  refine h.pixel_not_inCell hxy hf.drawable (fun hat ↦ hv ?_) hi hin
  obtain ⟨rfl, rfl⟩ := hat
  exact hf

theorem byte_writeAll_of_inSample (hxy : st.depth.contains x y = true) {i : Nat}
    (hi : InHalf (st.depth.addressOf x y) i) : (writeAll fb st fs m).byte i = m.byte i := by
  refine (frame_writeAll fs m).byte_eq i ?_
  rintro ⟨f, -, hf, hin⟩
  refine h.sample_not_inCell hxy hf.drawable (fun hat ↦ hv ?_) hi hin
  obtain ⟨rfl, rfl⟩ := hat
  exact hf

/-- A pixel that is not visible keeps its color. -/
theorem read16_pixel_of_not_visible (hxy : fb.contains x y = true) :
    Memory.read16 (writeAll fb st fs m) (fb.addressOf x y) = Memory.read16 m (fb.addressOf x y) :=
  read16_congr (frame_writeAll fs m).size_eq fun _ ↦ byte_writeAll_of_inPixel h hv fs hxy

/-- A pixel that is not visible keeps its depth. -/
theorem read16_sample_of_not_visible (hxy : st.depth.contains x y = true) :
    Memory.read16 (writeAll fb st fs m) (st.depth.addressOf x y) =
      Memory.read16 m (st.depth.addressOf x y) :=
  read16_congr (frame_writeAll fs m).size_eq fun _ ↦ byte_writeAll_of_inSample h hv fs hxy

/-- A pixel that is not visible keeps its cell. -/
theorem cellAt_of_not_visible (hxy : fb.contains x y = true) :
    cellAt fb st.depth (writeAll fb st fs m) x y = cellAt fb st.depth m x y := by
  refine cellAt_congr (frame_writeAll fs m).size_eq fun i hi ↦ ?_
  rcases hi with hi | ⟨hz, hi⟩
  · exact byte_writeAll_of_inPixel h hv fs hxy hi
  · exact byte_writeAll_of_inSample h hv fs hz hi

end

/-- Without a depth buffer, sequences with the same fragments at each visible pixel do the same. -/
theorem writeAll_ext {fs gs : List Fragment} (hfb : fb.Separate) (hz : st.depth = .unset)
    (h : ∀ x y, Visible fb st m x y →
      fs.filter (Fragment.isAt x y) = gs.filter (Fragment.isAt x y)) :
    writeAll fb st fs m = writeAll fb st gs m := by
  have hsize (fs : List Fragment) : (writeAll fb st fs m).size = m.size :=
    (frame_writeAll fs m).size_eq
  have hseparate : Separate fb st.depth := hz ▸ separate_unset hfb
  refine ext_byte ((hsize fs).trans (hsize gs).symm) fun i ↦ ?_
  by_cases hi : ∃ x y, Visible fb st m x y ∧ InHalf (fb.addressOf x y) i
  · obtain ⟨x, y, hv, hi⟩ := hi
    have hcell : cellAt fb st.depth (writeAll fb st fs m) x y =
        cellAt fb st.depth (writeAll fb st gs m) x y := by
      rw [cellAt_writeAll hseparate hv, cellAt_writeAll hseparate hv, h x y hv]
    exact byte_eq_of_halfOr_eq ((hsize fs).trans (hsize gs).symm)
      ((fits_congr (hsize gs)).2 hv.fits) (congrArg Cell.color hcell) hi
  · have hkeep (fs : List Fragment) : (writeAll fb st fs m).byte i = m.byte i := by
      refine (frame_writeAll fs m).byte_eq i ?_
      rintro ⟨f, -, hv, hpixel | ⟨hsample, -⟩⟩
      · exact hi ⟨f.x, f.y, hv, hpixel⟩
      · rw [hz, DepthBuffer.contains_unset] at hsample
        exact Bool.false_ne_true hsample
    rw [hkeep fs, hkeep gs]

end DisplayRaster
