import DisplayRaster.Proofs.Draw.Written
import Mathlib.Algebra.Order.Ring.Int

/-!
# What draws do to depth samples

A fragment is tested against the sample of its pixel first, then against everything that can keep
its color out of the framebuffer, and leaves its depth behind last.  So a sample changes only under
a pixel that was written, and only to something nearer (`Fragment.guardsDepth`).  All that is needed
of the layout is that no sample shares memory with another one or with a pixel
(`DepthBuffer.Private`); the pixels may lie on top of each other and outside of memory.

`Command.guardsDepth` says the same of draws.  A gradient writes the scissor without looking at the
framebuffer, so the scissor has to be at places of the framebuffer (`Scissor.Grounded`), which it is
from the start of a stream on.
-/

set_option autoImplicit false

namespace DisplayRaster

open Rdram

/-! ## Private samples -/

/-- Every sample is in memory at a place of its own, which is no place of the framebuffer. -/
structure DepthBuffer.Private (z : DepthBuffer) (fb : Framebuffer) (m : Rdram) : Prop where
  fits : ∀ {x y : Int}, z.contains x y = true → m.Fits (z.addressOf x y) 2
  eq_of_place_eq : ∀ {x y x' y' : Int}, z.contains x y = true → z.contains x' y' = true →
    physical (z.addressOf x y) = physical (z.addressOf x' y') → x = x' ∧ y = y'
  apart : ∀ {x y : Int}, z.contains x y = true → ∀ {i : Nat}, InHalf (z.addressOf x y) i →
    ¬ fb.Owns i

namespace DepthBuffer.Private

variable {z : DepthBuffer} {fb : Framebuffer} {m m₁ : Rdram}

theorem congr (h : z.Private fb m) (hsize : m₁.size = m.size) : z.Private fb m₁ :=
  ⟨fun hxy ↦ (fits_congr hsize).2 (h.fits hxy), h.eq_of_place_eq, h.apart⟩

/-- Writing pixels leaves all samples alone. -/
theorem stored_eq_of_frame (h : z.Private fb m) (hframe : Frame fb.Owns m m₁) (x y : Int) :
    z.stored m₁ x y = z.stored m x y :=
  stored_congr hframe.size_eq fun hxy i hi ↦ hframe.byte_eq i (h.apart hxy hi)

/-- Storing a depth changes the sample of its pixel only. -/
theorem stored_store (h : z.Private fb m) {x y : Int} (hxy : z.contains x y = true) (depth : UInt16)
    (x' y' : Int) :
    z.stored (z.store m x y depth) x' y' = if x = x' ∧ y = y' then depth else z.stored m x' y' := by
  split
  · next hat =>
    obtain ⟨rfl, rfl⟩ := hat
    rw [store, if_pos hxy, stored, if_pos hxy, halfOr_write16 far (h.fits hxy)]
  · next hat =>
    exact stored_store_of_ne (fun hxy ↦ (h.fits hxy).aligned) m depth
      fun _ hxy' he ↦ hat (h.eq_of_place_eq hxy hxy' he)

end DepthBuffer.Private

/-- Samples above a framebuffer, in memory. -/
theorem DepthBuffer.private_of_le {z : DepthBuffer} {fb : Framebuffer} {m : Rdram}
    (hfb : Rows fb.origin fb.stride fb.height.toNat) (hwidth : fb.width.toNat ≤ fb.stride.toNat)
    (hz : Rows z.addr z.width z.height.toNat)
    (hle : physical fb.origin + 2 * (fb.height.toNat * fb.stride.toNat) ≤ physical z.addr)
    (hroom : physical z.addr + 2 * (z.height.toNat * z.width.toNat) ≤ m.size) :
    z.Private fb m where
  fits := fits_of_rows hz hroom
  eq_of_place_eq := (separate_of_rows hz).eq_of_place_eq
  apart hxy i hi howns := by
    have hsample := (owns_of_contains hxy hi).bounds hz
    have hpixel := howns.bounds hfb hwidth
    omega

/-! ## Fragments -/

namespace Fragment

variable {fb : Framebuffer} {z : DepthBuffer} {st : RenderState} {m : Rdram} {f : Fragment}

/-- A fragment that leaves no color: it lies outside the framebuffer or the scissor, is transparent
where transparent colors are left out, or is on a pixel that cannot be written. -/
def Dropped (fb : Framebuffer) (st : RenderState) (m : Rdram) (f : Fragment) : Prop :=
  fb.contains f.x f.y = false ∨ st.scissor.contains f.x f.y = false ∨
    f.punchThrough = true ∧ st.blend = .off ∧ f.color &&& 1 = 0 ∨
    st.blend = .opaqueOnly ∧ f.color &&& 1 = 0 ∨ ¬ m.Fits (fb.addressOf f.x f.y) 2

theorem write_of_blended_eq_none (h : f.blended fb st m = none) : f.write fb st m = m := by
  rw [write, putPixel, h]
  split
  · rfl
  · split
    · rfl
    · rfl

/-- A dropped fragment changes nothing. -/
theorem write_of_dropped (h : f.Dropped fb st m) : f.write fb st m = m := by
  have hsurvives (hnone : ∀ old, f.survives st old = none) : f.write fb st m = m := by
    by_cases hv : Visible fb st m f.x f.y
    · exact write_of_blended_eq_none ((blended_of_visible hv).trans (hnone _))
    · exact write_of_not_visible hv
  rcases h with h | h | ⟨hpunch, hblend, hclear⟩ | ⟨hblend, hclear⟩ | h
  · refine write_of_not_visible fun hv ↦ ?_
    exact Bool.false_ne_true (h.symm.trans hv.drawable)
  · refine write_of_not_visible fun hv ↦ ?_
    exact Bool.false_ne_true (h.symm.trans hv.unclipped)
  · refine hsurvives fun old ↦ ?_
    simp [survives, hpunch, hblend, hclear]
  · refine hsurvives fun old ↦ ?_
    simp [survives, hblend, hclear, BlendMode.blend]
  · exact write_of_not_visible fun hv ↦ h hv.fits

/-- What a fragment does to the samples of a depth buffer. -/
structure GuardsDepth (fb : Framebuffer) (z : DepthBuffer) (st : RenderState) (m : Rdram)
    (f : Fragment) : Prop where
  /-- A sample that changes is that of the fragment's pixel. -/
  eq_of_ne : ∀ x y, z.stored (f.write fb st m) x y ≠ z.stored m x y → f.x = x ∧ f.y = y
  /-- The pixel has been written, inside the framebuffer and the scissor. -/
  written : z.stored (f.write fb st m) f.x f.y ≠ z.stored m f.x f.y →
    fb.contains f.x f.y = true ∧ st.scissor.contains f.x f.y = true ∧
      (f.putPixel fb st m).1 = true ∧
      ∃ color, f.blended fb st m = some color ∧
        Memory.read16 (f.write fb st m) (fb.addressOf f.x f.y) = .ok color
  /-- The depth of the fragment is what the sample becomes, and was nearer than the sample. -/
  nearer : z.stored (f.write fb st m) f.x f.y ≠ z.stored m f.x f.y →
    ∃ depth, f.depth = some depth ∧ depth < z.stored m f.x f.y ∧
      z.stored (f.write fb st m) f.x f.y = depth
  dropped : f.Dropped fb st m → f.write fb st m = m

theorem frame_putPixel_owns (m : Rdram) (f : Fragment) :
    Frame fb.Owns m (f.putPixel fb st m).2 :=
  frame_putPixel (fun _ hi ↦ hi) m f

/-- A fragment that has put its color into the framebuffer. -/
theorem visible_of_putPixel (h : (f.putPixel fb st m).1 = true) :
    Visible fb st m f.x f.y ∧ ∃ color, f.blended fb st m = some color ∧
      (f.putPixel fb st m).2 = (Memory.write16 m (fb.addressOf f.x f.y) color).memory := by
  by_cases hv : Visible fb st m f.x f.y
  · refine ⟨hv, ?_⟩
    rw [putPixel_of_visible hv] at h ⊢
    rw [blended_of_visible hv]
    cases hsurvives : f.survives st (Memory.halfOr 0 m (fb.addressOf f.x f.y)) with
    | none =>
      rw [hsurvives] at h
      cases h
    | some color => exact ⟨color, rfl, rfl⟩
  · rw [putPixel_of_not_visible hv] at h
    cases h

/-- A fragment without depth changes no sample. -/
theorem stored_write_of_depth_eq_none (hz : z.Private fb m) (h : f.depth = none) (x y : Int) :
    z.stored (f.write fb st m) x y = z.stored m x y := by
  rw [write, h]
  exact hz.stored_eq_of_frame (frame_putPixel_owns m f) x y

/-- A fragment either leaves all samples alone or is drawn and stores a nearer depth. -/
theorem stored_write_cases (hz : z.Private fb m) (hst : st.depth = z) :
    (∀ x y, z.stored (f.write fb st m) x y = z.stored m x y) ∨
      ∃ depth, f.depth = some depth ∧ depth < z.stored m f.x f.y ∧
        (f.putPixel fb st m).1 = true ∧ z.contains f.x f.y = true ∧
        f.write fb st m = z.store (f.putPixel fb st m).2 f.x f.y depth := by
  cases hdepth : f.depth with
  | none => exact .inl (stored_write_of_depth_eq_none hz hdepth)
  | some depth =>
    have hput : Frame fb.Owns m (f.putPixel fb st m).2 := frame_putPixel_owns m f
    rw [write, hdepth, hst]
    simp only
    split
    · next hpasses =>
      split
      · next m₁ heq =>
        rw [heq] at hput ⊢
        by_cases hc : z.contains f.x f.y = true
        · exact .inr ⟨depth, rfl, of_decide_eq_true hpasses, rfl, hc, rfl⟩
        · rw [DepthBuffer.store, if_neg hc]
          exact .inl (hz.stored_eq_of_frame hput)
      · next m₁ heq =>
        rw [heq] at hput
        exact .inl (hz.stored_eq_of_frame hput)
    · exact .inl fun _ _ ↦ rfl

/-- **A fragment changes a sample only under a pixel it has written, to a nearer depth.** -/
theorem guardsDepth (hz : z.Private fb m) (hst : st.depth = z) (f : Fragment) :
    f.GuardsDepth fb z st m := by
  rcases stored_write_cases hz hst (f := f) with hsame | ⟨depth, hdepth, hlt, hput, hc, hwrite⟩
  · exact ⟨fun x y h ↦ absurd (hsame x y) h, fun h ↦ absurd (hsame f.x f.y) h,
      fun h ↦ absurd (hsame f.x f.y) h, write_of_dropped⟩
  · have hframe : Frame fb.Owns m (f.putPixel fb st m).2 := frame_putPixel_owns m f
    have hstored (x y : Int) : z.stored (f.write fb st m) x y =
        if f.x = x ∧ f.y = y then depth else z.stored m x y := by
      rw [hwrite, (hz.congr hframe.size_eq).stored_store hc, hz.stored_eq_of_frame hframe]
    obtain ⟨hv, color, hblended, hmemory⟩ := visible_of_putPixel hput
    -- the depth is stored outside of the framebuffer, so the color stays
    have hread : Memory.read16 (f.write fb st m) (fb.addressOf f.x f.y) = .ok color := by
      have hsize : (f.putPixel fb st m).2.size = m.size := hframe.size_eq
      have hsample : Frame (fun i ↦ ¬ fb.Owns i) (f.putPixel fb st m).2 (f.write fb st m) := by
        rw [hwrite, DepthBuffer.store, if_pos hc]
        exact Frame.write16 _ depth fun i hi ↦ hz.apart hc hi
      rw [read16_congr hsample.size_eq fun i hi ↦
          hsample.byte_eq i (not_not_intro ⟨f.x, f.y, hv.drawable, hi⟩),
        read16_eq_ok 0 ((fits_congr hsize).2 hv.fits), hmemory, halfOr_write16 0 hv.fits]
    refine ⟨fun x y h ↦ ?_, fun _ ↦ ⟨hv.drawable, hv.unclipped, hput, color, hblended, hread⟩,
      fun _ ↦ ⟨depth, hdepth, hlt, by rw [hstored, if_pos ⟨rfl, rfl⟩]⟩, write_of_dropped⟩
    by_contra hat
    exact h (by rw [hstored, if_neg hat])

/-- No sample moves away. -/
theorem GuardsDepth.le (h : f.GuardsDepth fb z st m) (x y : Int) :
    z.stored (f.write fb st m) x y ≤ z.stored m x y := by
  by_cases heq : z.stored (f.write fb st m) x y = z.stored m x y
  · exact heq ▸ UInt16.le_refl _
  · obtain ⟨rfl, rfl⟩ := h.eq_of_ne x y heq
    obtain ⟨depth, -, hlt, hstored⟩ := h.nearer heq
    rw [hstored]
    exact UInt16.le_of_lt hlt

theorem size_write (fb : Framebuffer) (st : RenderState) (m : Rdram) (f : Fragment) :
    (f.write fb st m).size = m.size :=
  (frame_write_inCell m f).size_eq

end Fragment

/-! ## Sequences of fragments -/

section

variable {fb : Framebuffer} {z : DepthBuffer} {st : RenderState} {m : Rdram} {fs : List Fragment}

theorem size_writeAll (fb : Framebuffer) (st : RenderState) (fs : List Fragment) (m : Rdram) :
    (writeAll fb st fs m).size = m.size :=
  (frame_writeAll fs m).size_eq

theorem stored_writeAll_le (hz : z.Private fb m) (hst : st.depth = z) (x y : Int) :
    z.stored (writeAll fb st fs m) x y ≤ z.stored m x y := by
  induction fs generalizing m with
  | nil => exact UInt16.le_refl _
  | cons f fs ih =>
    have hrest := ih (hz.congr (f.size_write fb st m))
    exact UInt16.le_trans hrest ((f.guardsDepth hz hst).le x y)

theorem stored_writeAll_of_depth_eq_none (hz : z.Private fb m) (h : ∀ f ∈ fs, f.depth = none)
    (x y : Int) : z.stored (writeAll fb st fs m) x y = z.stored m x y := by
  induction fs generalizing m with
  | nil => rfl
  | cons f fs ih =>
    have hrest := ih (hz.congr (f.size_write fb st m)) fun g hg ↦ h g (by simp [hg])
    exact hrest.trans (Fragment.stored_write_of_depth_eq_none hz (h f (by simp)) x y)

end

/-! ## Scissors at places of the framebuffer -/

/-- Every pixel of the scissor is at the place of a pixel of the framebuffer. -/
def Scissor.Grounded (r : Scissor) (fb : Framebuffer) : Prop :=
  ∀ (x y : Int) (i : Nat), r.contains x y = true → InHalf (fb.addressOf x y) i → fb.Owns i

theorem toNat_coordWord (x : Int) : ((coordWord x).toNat : Int) = x % 2 ^ 32 := by
  have hnat : (coordWord x).toNat = (x % 2 ^ 32).toNat := BitVec.toNat_ofInt x
  omega

/-- `2 ^ 28` pixels further on, in either direction, memory comes back to the same place. -/
theorem Framebuffer.physical_addressOf_congr (fb : Framebuffer) {x y x' y' : Int}
    (hx : x' % 2 ^ 28 = x % 2 ^ 28) (hy : y' % 2 ^ 28 = y % 2 ^ 28) :
    physical (fb.addressOf x' y') = physical (fb.addressOf x y) := by
  have hmod {a b : Int} (h : a % 2 ^ 28 = b % 2 ^ 28) :
      (coordWord a).toNat % 2 ^ 28 = (coordWord b).toNat % 2 ^ 28 := by
    have ha := toNat_coordWord a
    have hb := toNat_coordWord b
    omega
  have hrow : (coordWord y').toNat * fb.stride.toNat % 2 ^ 28 =
      (coordWord y).toNat * fb.stride.toNat % 2 ^ 28 := by
    rw [Nat.mul_mod, hmod hy, ← Nat.mul_mod]
  have hcolumn := hmod hx
  simp only [addressOf, physical_eq_mod, UInt32.toNat_add, UInt32.toNat_mul, UInt32.reduceToNat]
  omega

/-- A coordinate within a side, or any coordinate if the side is long. -/
theorem exists_place {side : UInt32} {x : Int}
    (h : 0 ≤ x ∧ x < side.toNat ∨ 2 ^ 31 ≤ side.toNat) :
    ∃ x' : Int, 0 ≤ x' ∧ x' < side.toNat ∧ x' % 2 ^ 28 = x % 2 ^ 28 := by
  rcases h with ⟨h₀, h₁⟩ | h
  · exact ⟨x, h₀, h₁, rfl⟩
  · exact ⟨x % 2 ^ 28, by omega, by omega, by omega⟩

/-- Sides that are no signed words do no harm: they are so long that all coordinates have a place
within them. -/
theorem Scissor.grounded_of_sides {r : Scissor} {fb : Framebuffer}
    (hx : ∀ x : Int, r.x0.toInt ≤ x → x < r.x1.toInt →
      0 ≤ x ∧ x < fb.width.toNat ∨ 2 ^ 31 ≤ fb.width.toNat)
    (hy : ∀ y : Int, r.y0.toInt ≤ y → y < r.y1.toInt →
      0 ≤ y ∧ y < fb.height.toNat ∨ 2 ^ 31 ≤ fb.height.toNat) : r.Grounded fb := by
  intro x y i hxy hi
  obtain ⟨hx₀, hx₁, hy₀, hy₁⟩ := contains_eq_true.1 hxy
  obtain ⟨x', hx'₀, hx'₁, hx'⟩ := exists_place (hx x hx₀ hx₁)
  obtain ⟨y', hy'₀, hy'₁, hy'⟩ := exists_place (hy y hy₀ hy₁)
  refine ⟨x', y', inExtent_eq_true.2 ⟨hx'₀, hy'₀, hx'₁, hy'₁⟩, ?_⟩
  rw [InHalf, fb.physical_addressOf_congr hx' hy']
  exact hi

theorem Scissor.grounded_full (fb : Framebuffer) :
    (Scissor.full fb.width fb.height).Grounded fb := by
  have hside {side : UInt32} (x : Int) (h₀ : (0 : Int32).toInt ≤ x) (h₁ : x < side.toInt32.toInt) :
      0 ≤ x ∧ x < side.toNat ∨ 2 ^ 31 ≤ side.toNat := by
    rcases Nat.lt_or_ge side.toNat (2 ^ 31) with hlt | hge
    · rw [toInt_toInt32_of_lt hlt] at h₁
      exact .inl ⟨h₀, h₁⟩
    · exact .inr hge
  exact grounded_of_sides hside hside

theorem Scissor.grounded_clamped (fb : Framebuffer) (r : Scissor) :
    (r.clamped fb.width fb.height).Grounded fb := by
  have hside {side : UInt32} {lo hi : Int32} (x : Int) (h₀ : (clampTo side.toInt32 lo).toInt ≤ x)
      (h₁ : x < (clampTo side.toInt32 hi).toInt) :
      0 ≤ x ∧ x < side.toNat ∨ 2 ^ 31 ≤ side.toNat := by
    rcases Nat.lt_or_ge side.toNat (2 ^ 31) with hlt | hge
    · have hside := toInt_toInt32_of_lt hlt
      rw [toInt_clampTo (by omega)] at h₀ h₁
      omega
    · exact .inr hge
  exact grounded_of_sides hside hside

/-! ## Commands -/

namespace Command

variable {fb : Framebuffer} {z : DepthBuffer} {c : Command} {st : RenderState} {m : Rdram}

theorem grounded_select (h : st.scissor.Grounded fb) (c : Command) (m : Rdram) :
    (c.select fb st m).scissor.Grounded fb := by
  cases c with
  | setScissor r => exact Scissor.grounded_clamped fb r
  | _ => exact h

/-- What a command in state `st` does to the samples of a depth buffer. -/
structure GuardsDepth (fb : Framebuffer) (z : DepthBuffer) (c : Command) (st : RenderState)
    (m : Rdram) : Prop where
  le : ∀ x y, z.stored (c.draw fb st m) x y ≤ z.stored m x y
  untouched : c.carriesDepth = false ∨ st.depthEnabled = false →
    ∀ x y, z.stored (c.draw fb st m) x y = z.stored m x y
  /-- All that a draw does is to write its fragments, if it is not a gradient. -/
  draw_eq : (∀ left right, c ≠ .gradient left right) →
    c.draw fb st m = writeAll fb st (c.written fb st m) m
  fragments : ∀ before f after, c.written fb st m = before ++ f :: after →
    f.GuardsDepth fb z st (writeAll fb st before m)

/-- **A command that does not clear the samples changes them only through fragments that are nearer
and have been drawn.** -/
theorem guardsDepth (hz : z.Private fb m) (hst : st.depth = z) (hscissor : st.scissor.Grounded fb)
    (hclear : ∀ value, c ≠ .clearDepth value) : c.GuardsDepth fb z st m := by
  have hfragments (before : List Fragment) (f : Fragment) :
      f.GuardsDepth fb z st (writeAll fb st before m) :=
    f.guardsDepth (hz.congr (size_writeAll fb st before m)) hst
  by_cases hgradient : ∃ left right, c = .gradient left right
  · obtain ⟨left, right, rfl⟩ := hgradient
    have hframe : Frame fb.Owns m (drawGradient fb st m left right) :=
      frame_drawGradient hscissor m left right
    have hstored (x y : Int) : z.stored (drawGradient fb st m left right) x y = z.stored m x y :=
      hz.stored_eq_of_frame hframe x y
    exact {
      le := fun x y ↦ UInt16.le_of_eq (hstored x y)
      untouched := fun _ ↦ hstored
      draw_eq := fun h ↦ absurd rfl (h left right)
      fragments := fun before f _ _ ↦ hfragments before f }
  · have hne : ∀ left right, c ≠ .gradient left right :=
      fun left right h ↦ hgradient ⟨left, right, h⟩
    have hdraw := draw_eq_writeAll_written hne hclear fb st m
    refine ⟨fun x y ↦ ?_, fun h x y ↦ ?_, fun _ ↦ hdraw, fun before f _ _ ↦ hfragments before f⟩
    · rw [hdraw]
      exact stored_writeAll_le hz hst x y
    · rw [hdraw]
      refine stored_writeAll_of_depth_eq_none hz (fun f hf ↦ depth_of_mem_written hf ?_) x y
      refine h.imp_right fun hoff ↦ ?_
      rw [RenderState.testsDepth, hoff, Bool.false_and]

end Command

end DisplayRaster
