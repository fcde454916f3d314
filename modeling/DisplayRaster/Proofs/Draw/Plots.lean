import DisplayRaster.Proofs.Draw.Blit

/-!
# Draws that plot a pixel at most once

Backgrounds and rectangles carry no depth and reach each pixel once or not at all.  `PlotsOnce` says
so of a list of fragments and names the fragment of each pixel.  In a framebuffer whose pixels are
at places of their own this is all there is to know about such a draw: a pixel with a fragment holds
what this one fragment makes of it, and every other byte of memory is left alone.
-/

set_option autoImplicit false

namespace DisplayRaster

open Rdram

/-- A list of fragments without depth that has at most one fragment, `plot x y`, on each pixel that
lies in the framebuffer and in the scissor. -/
structure PlotsOnce (fb : Framebuffer) (st : RenderState) (fs : List Fragment)
    (plot : Int → Int → Option Fragment) : Prop where
  depth_eq : ∀ f ∈ fs, f.depth = none
  filter_isAt : ∀ {x y : Int}, fb.contains x y = true → st.scissor.contains x y = true →
    fs.filter (Fragment.isAt x y) = (plot x y).toList

variable {fb : Framebuffer} {st : RenderState} {m : Rdram} {fs : List Fragment}
  {plot : Int → Int → Option Fragment} {x y : Int}

/-- Fragments without depth do not look at the depth buffer. -/
theorem writeAll_withoutDepth (h : ∀ f ∈ fs, f.depth = none) :
    writeAll fb st fs m = writeAll fb st.withoutDepth fs m := by
  refine List.foldl_ext _ _ m fun m f hf ↦ ?_
  rw [Fragment.write, Fragment.write, h f hf]
  rfl

namespace PlotsOnce

variable (h : PlotsOnce fb st fs plot)

include h

/-- The fragment of a pixel is one of the list, and is at this pixel. -/
theorem mem_plot (hxy : fb.contains x y = true) (hscissor : st.scissor.contains x y = true)
    {f : Fragment} (hf : plot x y = some f) : f ∈ fs ∧ f.x = x ∧ f.y = y := by
  have hmem : f ∈ fs.filter (Fragment.isAt x y) := by
    rw [h.filter_isAt hxy hscissor, hf]
    exact List.mem_singleton_self f
  obtain ⟨hfs, hat⟩ := List.mem_filter.1 hmem
  exact ⟨hfs, Fragment.isAt_eq_true.1 hat⟩

/-- **A pixel holds what its fragment makes of it**, or what it held before if it has none. -/
theorem read16_writeAll (hfb : fb.Separate) (hxy : fb.contains x y = true)
    (hscissor : st.scissor.contains x y = true) (hfits : m.Fits (fb.addressOf x y) 2) :
    Memory.read16 (writeAll fb st fs m) (fb.addressOf x y) =
      .ok (((plot x y).map fun f ↦ f.paintOver st (Memory.halfOr 0 m (fb.addressOf x y))).getD
        (Memory.halfOr 0 m (fb.addressOf x y))) := by
  rw [writeAll_withoutDepth h.depth_eq]
  have hv : Visible fb st.withoutDepth m x y := ⟨hxy, hscissor, hfits⟩
  have hsize : (writeAll fb st.withoutDepth fs m).size = m.size := (frame_writeAll fs m).size_eq
  have hcell := cellAt_writeAll (separate_unset hfb) hv fs
  rw [h.filter_isAt hxy hscissor] at hcell
  rw [read16_eq_ok 0 ((fits_congr hsize).2 hfits)]
  refine congrArg Except.ok ((congrArg Cell.color hcell).trans ?_)
  cases hplot : plot x y with
  | none => rfl
  | some f =>
    have hdepth : f.depth = none := h.depth_eq f (h.mem_plot hxy hscissor hplot).1
    rw [Option.toList_some, List.foldl_cons, List.foldl_nil, Fragment.shade, hdepth]
    rfl

/-- **Nothing changes but pixels that have a fragment.** -/
theorem frame_writeAll (m : Rdram) :
    Frame (fun i ↦ ∃ x y, fb.contains x y = true ∧ st.scissor.contains x y = true ∧
      (plot x y).isSome = true ∧ InHalf (fb.addressOf x y) i) m (writeAll fb st fs m) := by
  rw [writeAll_withoutDepth h.depth_eq]
  refine (DisplayRaster.frame_writeAll fs m).mono ?_
  rintro i ⟨f, hf, hv, hpixel | ⟨hsample, -⟩⟩
  · refine ⟨f.x, f.y, hv.drawable, hv.unclipped, ?_, hpixel⟩
    have hat : f ∈ fs.filter (Fragment.isAt f.x f.y) :=
      List.mem_filter.2 ⟨hf, Fragment.isAt_eq_true.2 ⟨rfl, rfl⟩⟩
    rw [h.filter_isAt hv.drawable hv.unclipped] at hat
    rw [Option.mem_toList.1 hat]
    rfl
  · exact absurd hsample (Bool.eq_false_iff.1 (DepthBuffer.contains_unset _ _))

end PlotsOnce

end DisplayRaster
