import DisplayRaster.Proofs.Draw.Sequence
import DisplayRaster.Proofs.Triangle.Pixels
import Mathlib.Order.Bounds.Basic

/-!
# The nearest fragment

With the depth test on and blending off, each pixel of a list of triangles ends with the least depth
among its own and those of the triangles that cover it, and with the color of the first triangle
that has this depth (`Command.nearest_applyAll`).  A triangle does to the cell of a pixel what
`ColoredTriangle.shade` says, and a list of triangles does so one after the other; that this leaves
the nearest one behind is then a fact about a fold (`nearest_foldl`).

The least depth of a list does not depend on its order, and neither does the color if only one
triangle has this depth (`Nearest.perm`).
-/

set_option autoImplicit false

namespace DisplayRaster

open Rdram

/-! ## Triangles in a list -/

/-- A triangle with depth, in a color of its own. -/
structure ColoredTriangle where
  color : UInt16
  vertices : Corners Vertex

namespace ColoredTriangle

/-- The commands that draw a triangle. -/
def commands (t : ColoredTriangle) : List Command :=
  [.setPrimColor t.color, .solidTriangleDepth t.vertices]

/-- The depth of a triangle at a pixel, if it covers the pixel. -/
def depthAt? (t : ColoredTriangle) (x y : Int) : Option UInt16 :=
  (Oriented.ofVertices t.vertices).bind fun tri ↦
    if tri.covers x y then some (tri.depthAt (tri.weights x y)) else none

/-- The cell of a pixel after a triangle. -/
def shade (x y : Int) (c : Cell) (t : ColoredTriangle) : Cell :=
  (t.depthAt? x y).elim c fun depth ↦ if depth < c.depth then ⟨t.color, depth⟩ else c

variable {color : UInt16} {v : Corners Vertex} {tri : Oriented} {x y : Int}

theorem depthAt?_of_covers (htri : Oriented.ofVertices v = some tri)
    (h : tri.covers x y = true) :
    (mk color v).depthAt? x y = some (tri.depthAt (tri.weights x y)) := by
  rw [depthAt?, htri, Option.bind_some, if_pos h]

theorem depthAt?_of_not_covers (htri : Oriented.ofVertices v = some tri)
    (h : ¬ tri.covers x y = true) : (mk color v).depthAt? x y = none := by
  rw [depthAt?, htri, Option.bind_some, if_neg h]

theorem depthAt?_of_flat (htri : Oriented.ofVertices v = none) :
    (mk color v).depthAt? x y = none := by
  rw [depthAt?, htri, Option.bind_none]

end ColoredTriangle

/-! ## The nearest of a list -/

/-- The cell `new` is what the triangles `ts` make of the cell `old`: it has the least depth there
is, and the color of the first triangle with this depth unless the old cell has it already. -/
structure Nearest (ts : List ColoredTriangle) (x y : Int) (old new : Cell) : Prop where
  depth : IsLeast {d | d = old.depth ∨ ∃ t ∈ ts, t.depthAt? x y = some d} new.depth
  color_of_lt : new.depth < old.depth →
    (ts.find? fun t ↦ t.depthAt? x y = some new.depth).map ColoredTriangle.color = some new.color
  color_of_eq : new.depth = old.depth → new.color = old.color

section

variable {ts ts' : List ColoredTriangle} {x y : Int} {old new new' : Cell}

/-- A cell without triangles stays as it is. -/
theorem nearest_nil (old : Cell) : Nearest [] x y old old where
  depth := ⟨.inl rfl, by rintro d (rfl | ⟨t, ht, -⟩); exacts [UInt16.le_refl _, by simp at ht]⟩
  color_of_lt hlt := absurd hlt (UInt16.lt_irrefl _)
  color_of_eq _ := rfl

/-- One more triangle at the end of the list. -/
theorem Nearest.shade (h : Nearest ts x y old new) (t : ColoredTriangle) :
    Nearest (ts ++ [t]) x y old (t.shade x y new) := by
  have hkeep (hle : ∀ d, t.depthAt? x y = some d → new.depth ≤ d) :
      Nearest (ts ++ [t]) x y old new := by
    refine ⟨⟨?_, ?_⟩, fun hlt ↦ ?_, h.color_of_eq⟩
    · rcases h.depth.1 with hold | ⟨u, hu, hd⟩
      · exact .inl hold
      · exact .inr ⟨u, by simp [hu], hd⟩
    · rintro d (hold | ⟨u, hu, hd⟩)
      · exact h.depth.2 (.inl hold)
      · rcases List.mem_append.1 hu with hu | hu
        · exact h.depth.2 (.inr ⟨u, hu, hd⟩)
        · exact hle d (List.mem_singleton.1 hu ▸ hd)
    · rw [List.find?_append, Option.map_or, h.color_of_lt hlt]
      rfl
  rw [ColoredTriangle.shade]
  cases ht : t.depthAt? x y with
  | none => exact hkeep fun d hd ↦ absurd (ht.symm.trans hd) (by simp)
  | some depth =>
    rw [Option.elim_some]
    split
    · next hlt =>
      have hle {d : UInt16} (hd : d = old.depth ∨ ∃ u ∈ ts, u.depthAt? x y = some d) :
          depth < d := UInt16.lt_of_lt_of_le hlt (h.depth.2 hd)
      refine ⟨⟨.inr ⟨t, by simp, ht⟩, ?_⟩, fun _ ↦ ?_, fun heq ↦ ?_⟩
      · rintro d (hold | ⟨u, hu, hd⟩)
        · exact UInt16.le_of_lt (hle (.inl hold))
        · rcases List.mem_append.1 hu with hu | hu
          · exact UInt16.le_of_lt (hle (.inr ⟨u, hu, hd⟩))
          · obtain rfl := List.mem_singleton.1 hu
            exact UInt16.le_of_eq (Option.some.inj (ht.symm.trans hd))
      · -- no triangle before has this depth
        have hnone : ts.find? (fun u ↦ u.depthAt? x y = some depth) = none := by
          rw [List.find?_eq_none]
          intro u hu hd
          exact UInt16.lt_irrefl _ (hle (.inr ⟨u, hu, of_decide_eq_true hd⟩))
        rw [List.find?_append, hnone]
        simp [ht]
      · exact absurd (hle (.inl rfl)) (heq ▸ UInt16.lt_irrefl _)
    · next hlt =>
      refine hkeep fun d hd ↦ ?_
      rw [← Option.some.inj (ht.symm.trans hd)]
      exact UInt16.not_lt.1 hlt

/-- **Shading a cell with the triangles of a list in turn** leaves the nearest one. -/
theorem nearest_foldl (ts : List ColoredTriangle) (x y : Int) (old : Cell) :
    Nearest ts x y old (ts.foldl (ColoredTriangle.shade x y) old) := by
  induction ts using List.reverseRecOn with
  | nil => exact nearest_nil old
  | append_singleton ts t ih =>
    rw [List.foldl_append]
    exact ih.shade t

/-- **The order of the triangles** does not matter for the depth, nor for the color if only one of
them has the least depth. -/
theorem Nearest.perm (h : Nearest ts x y old new) (h' : Nearest ts' x y old new')
    (hperm : ts.Perm ts') :
    new'.depth = new.depth ∧
      ((ts.filter fun t ↦ t.depthAt? x y = some new.depth).length ≤ 1 →
        new'.color = new.color) := by
  have hset : {d | d = old.depth ∨ ∃ t ∈ ts', t.depthAt? x y = some d} =
      {d | d = old.depth ∨ ∃ t ∈ ts, t.depthAt? x y = some d} := by
    simp only [hperm.mem_iff]
  have hdepth' := hset ▸ h'.depth
  have hdepth : new'.depth = new.depth :=
    UInt16.le_antisymm (hdepth'.2 h.depth.1) (h.depth.2 hdepth'.1)
  refine ⟨hdepth, fun hone ↦ ?_⟩
  by_cases heq : new.depth = old.depth
  · rw [h.color_of_eq heq, h'.color_of_eq (hdepth.trans heq)]
  · have hlt : new.depth < old.depth := UInt16.lt_of_le_of_ne (h.depth.2 (.inl rfl)) heq
    have hcolor := h.color_of_lt hlt
    have hcolor' := h'.color_of_lt (hdepth ▸ hlt)
    rw [hdepth] at hcolor'
    -- a list of one element or none has no other order
    have hfilter : (ts.filter fun t ↦ t.depthAt? x y = some new.depth) =
        ts'.filter fun t ↦ t.depthAt? x y = some new.depth := by
      have hp := hperm.filter fun t ↦ t.depthAt? x y = some new.depth
      match hts : ts.filter fun t ↦ t.depthAt? x y = some new.depth with
      | [] => rw [hts] at hp; exact hts.trans hp.nil_eq
      | [t] => rw [hts] at hp; exact hts.trans hp.singleton_eq
      | _ :: _ :: _ => rw [hts] at hone; simp at hone
    rw [← List.head?_filter, hfilter, List.head?_filter, hcolor'] at hcolor
    exact Option.some.inj hcolor

end

/-! ## Drawing a list -/

/-- Draws that are tested against a depth buffer with a sample for each pixel, where all pixels and
samples are in memory and at places of their own. -/
structure DepthTested (fb : Framebuffer) (st : RenderState) (m : Rdram) : Prop where
  combine_ne : st.combine ≠ .environment
  blend_eq : st.blend = .off
  enabled : st.depthEnabled = true
  contains_sample : ∀ {x y : Int}, fb.contains x y = true → st.depth.contains x y = true
  pixel_fits : ∀ {x y : Int}, fb.contains x y = true → m.Fits (fb.addressOf x y) 2
  sample_fits : ∀ {x y : Int}, st.depth.contains x y = true → m.Fits (st.depth.addressOf x y) 2
  separate : Separate fb st.depth

/-- What a fragment that replaces colors makes of a cell whose depth can be stored. -/
theorem Fragment.shade_opaque {st : RenderState} {f : Fragment} (hblend : st.blend = .off)
    (hpunch : f.punchThrough = false) (depth : UInt16) (hdepth : f.depth = some depth) (c : Cell) :
    f.shade st true c = if depth < c.depth then ⟨f.color, depth⟩ else c := by
  have hsurvives : f.survives st c.color = some f.color := by
    rw [survives, hpunch, hblend]
    rfl
  rw [shade, hdepth]
  simp only [hsurvives, if_true]

namespace DepthTested

variable {fb : Framebuffer} {st : RenderState} {m m₁ : Rdram} {x y : Int}

theorem withPrimColor (h : DepthTested fb st m) (hsize : m₁.size = m.size) (color : UInt16) :
    DepthTested fb { st with primColor := color } m₁ where
  combine_ne := h.combine_ne
  blend_eq := h.blend_eq
  enabled := h.enabled
  contains_sample := h.contains_sample
  pixel_fits hxy := (fits_congr hsize).2 (h.pixel_fits hxy)
  sample_fits hxy := (fits_congr hsize).2 (h.sample_fits hxy)
  separate := h.separate

theorem choose_eq (h : DepthTested fb st m) : Paint.choose st none = some (.flat st.primColor) := by
  have hcombine := h.combine_ne
  rw [Paint.choose]
  cases hc : st.combine with
  | texture => rfl
  | primitive => rfl
  | environment => exact absurd hc hcombine

theorem testsDepth (h : DepthTested fb st m) (hxy : fb.contains x y = true) :
    st.testsDepth = true := by
  have hz := h.contains_sample hxy
  rw [DepthBuffer.contains, inExtent_eq_true] at hz
  have hwidth : st.depth.width ≠ 0 := fun h0 ↦ by simp [h0] at hz; omega
  have hheight : st.depth.height ≠ 0 := fun h0 ↦ by simp [h0] at hz; omega
  simp [RenderState.testsDepth, DepthBuffer.isSet, h.enabled, hwidth, hheight]

theorem keeps (h : DepthTested fb st m) (hxy : fb.contains x y = true) :
    st.depth.keeps m x y = true := by
  have hz := h.contains_sample hxy
  rw [DepthBuffer.keeps, hz, decide_eq_true (h.sample_fits hz)]
  rfl

/-- A triangle shades the cell of each pixel inside the scissor. -/
theorem cellAt_draw (h : DepthTested fb st m) (hxy : fb.contains x y = true)
    (hin : st.scissor.contains x y = true) (v : Corners Vertex) :
    cellAt fb st.depth ((Command.solidTriangleDepth v).draw fb st m) x y =
      ColoredTriangle.shade x y (cellAt fb st.depth m x y) ⟨st.primColor, v⟩ := by
  have hv : Visible fb st m x y := ⟨hxy, hin, h.pixel_fits hxy⟩
  show cellAt fb st.depth (drawTriangle fb st m v none .affine true) x y = _
  rw [drawTriangle_eq_writeAll (by simp), cellAt_writeAll h.separate hv, h.keeps hxy,
    ColoredTriangle.shade]
  cases htri : Oriented.ofVertices v with
  | none =>
    rw [ColoredTriangle.depthAt?_of_flat htri, triangleFragments, h.choose_eq, htri]
    rfl
  | some tri =>
    rw [filter_isAt_triangleFragments h.choose_eq htri m _ _ hxy, h.testsDepth hxy]
    by_cases hcovers : tri.covers x y = true
    · rw [ColoredTriangle.depthAt?_of_covers htri hcovers, Oriented.fragment_of_covers hcovers]
      let f : Fragment := ⟨x, y, st.primColor, false, some (tri.depthAt (tri.weights x y))⟩
      exact Fragment.shade_opaque (f := f) h.blend_eq rfl _ rfl _
    · rw [ColoredTriangle.depthAt?_of_not_covers htri hcovers,
        Oriented.fragment_of_not_covers hcovers]
      rfl

/-- A triangle leaves the cell of each pixel outside the scissor alone. -/
theorem cellAt_draw_of_clipped (h : DepthTested fb st m) (hxy : fb.contains x y = true)
    (hout : st.scissor.contains x y = false) (v : Corners Vertex) :
    cellAt fb st.depth ((Command.solidTriangleDepth v).draw fb st m) x y =
      cellAt fb st.depth m x y := by
  have hv : ¬ Visible fb st m x y := fun hv ↦
    Bool.false_ne_true (hout.symm.trans hv.unclipped)
  show cellAt fb st.depth (drawTriangle fb st m v none .affine true) x y = _
  rw [drawTriangle_eq_writeAll (by simp), cellAt_of_not_visible h.separate hv _ hxy]

/-- A list of triangles shades the cell of each pixel inside the scissor in turn. -/
theorem cellAt_applyAll (h : DepthTested fb st m) (hxy : fb.contains x y = true)
    (hin : st.scissor.contains x y = true) (ts : List ColoredTriangle) :
    cellAt fb st.depth (Command.applyAll fb (ts.flatMap ColoredTriangle.commands) st m).2 x y =
      ts.foldl (ColoredTriangle.shade x y) (cellAt fb st.depth m x y) := by
  induction ts generalizing st m with
  | nil => rfl
  | cons t ts ih =>
    have hcolor := h.withPrimColor rfl t.color
    have hdraw := hcolor.cellAt_draw hxy hin t.vertices
    have hnext := h.withPrimColor ((Command.solidTriangleDepth t.vertices).size_draw fb
      { st with primColor := t.color } m) t.color
    exact (ih hnext hin).trans (congrArg (ts.foldl (ColoredTriangle.shade x y)) hdraw)

/-- A list of triangles leaves the cell of each pixel outside the scissor alone. -/
theorem cellAt_applyAll_of_clipped (h : DepthTested fb st m) (hxy : fb.contains x y = true)
    (hout : st.scissor.contains x y = false) (ts : List ColoredTriangle) :
    cellAt fb st.depth (Command.applyAll fb (ts.flatMap ColoredTriangle.commands) st m).2 x y =
      cellAt fb st.depth m x y := by
  induction ts generalizing st m with
  | nil => rfl
  | cons t ts ih =>
    have hcolor := h.withPrimColor rfl t.color
    have hdraw := hcolor.cellAt_draw_of_clipped hxy hout t.vertices
    have hnext := h.withPrimColor ((Command.solidTriangleDepth t.vertices).size_draw fb
      { st with primColor := t.color } m) t.color
    exact (ih hnext hout).trans hdraw

end DepthTested

/-- **Drawing with a depth buffer shows the nearest triangle.**  After a list of triangles, each in
its color, every pixel inside the scissor holds the nearest of what it held and the triangles that
cover it, and every pixel outside holds what it held.  Drawn in another order, the triangles leave
the same depths, and the same color wherever the least depth belongs to one triangle only. -/
theorem Command.nearest_applyAll {fb : Framebuffer} {st : RenderState} {m : Rdram}
    (h : DepthTested fb st m) (ts : List ColoredTriangle) :
    let drawn (ts : List ColoredTriangle) (x y : Int) : Cell :=
      cellAt fb st.depth (applyAll fb (ts.flatMap ColoredTriangle.commands) st m).2 x y
    (∀ x y, fb.contains x y = true → st.scissor.contains x y = true →
      Nearest ts x y (cellAt fb st.depth m x y) (drawn ts x y)) ∧
    (∀ x y, fb.contains x y = true → st.scissor.contains x y = false →
      drawn ts x y = cellAt fb st.depth m x y) ∧
    ∀ ts', ts.Perm ts' → ∀ x y, fb.contains x y = true →
      (drawn ts' x y).depth = (drawn ts x y).depth ∧
        ((ts.filter fun t ↦ t.depthAt? x y = some (drawn ts x y).depth).length ≤ 1 →
          (drawn ts' x y).color = (drawn ts x y).color) := by
  intro drawn
  have hnearest (ts : List ColoredTriangle) (x y : Int) (hxy : fb.contains x y = true)
      (hin : st.scissor.contains x y = true) :
      Nearest ts x y (cellAt fb st.depth m x y) (drawn ts x y) := by
    have hdrawn : drawn ts x y = _ := h.cellAt_applyAll hxy hin ts
    rw [hdrawn]
    exact nearest_foldl ts x y _
  refine ⟨hnearest ts, fun x y hxy hout ↦ h.cellAt_applyAll_of_clipped hxy hout ts,
    fun ts' hperm x y hxy ↦ ?_⟩
  cases hin : st.scissor.contains x y with
  | true => exact (hnearest ts x y hxy hin).perm (hnearest ts' x y hxy hin) hperm
  | false =>
    have hsame : drawn ts' x y = drawn ts x y :=
      (h.cellAt_applyAll_of_clipped hxy hin ts').trans
        (h.cellAt_applyAll_of_clipped hxy hin ts).symm
    rw [hsame]
    exact ⟨rfl, fun _ ↦ rfl⟩

/-- Two triangles on one pixel, the nearer of which is drawn last or first. -/
theorem Command.nearest_applyAll_overlap :
    let fb : Framebuffer := ⟨0, 2, 2, 2⟩
    let st : RenderState :=
      { RenderState.initial 2 2 with depthEnabled := true, depth := ⟨8, 2, 2⟩ }
    let m := st.depth.clear (Rdram.zeroed 16) 0xFFFF
    let distant : ColoredTriangle :=
      ⟨7, ⟨0, 0, 0, 0, 1, 9⟩, ⟨2, 0, 0, 0, 1, 9⟩, ⟨0, 2, 0, 0, 1, 9⟩⟩
    let close : ColoredTriangle :=
      ⟨3, ⟨0, 0, 0, 0, 1, 2⟩, ⟨2, 0, 0, 0, 1, 7⟩, ⟨0, 2, 0, 0, 1, 4⟩⟩
    let drawn (ts : List ColoredTriangle) : Cell :=
      cellAt fb st.depth (applyAll fb (ts.flatMap ColoredTriangle.commands) st m).2 0 0
    Nearest [distant, close] 0 0 ⟨0, 0xFFFF⟩ (drawn [distant, close]) ∧
      drawn [distant, close] = ⟨3, 3⟩ ∧
      (drawn [close, distant]).color = (drawn [distant, close]).color := by
  intro fb st m distant close drawn
  have hfb : Rows fb.origin fb.stride fb.height.toNat := ⟨by decide, by decide⟩
  have hz : Rows st.depth.addr st.depth.width st.depth.height.toNat := ⟨by decide, by decide⟩
  have hsize : m.size = 16 := by decide
  have h : DepthTested fb st m := {
    combine_ne := by decide
    blend_eq := rfl
    enabled := rfl
    contains_sample := id
    pixel_fits := Framebuffer.fits_of_rows hfb (by decide) (by rw [hsize]; decide)
    sample_fits := DepthBuffer.fits_of_rows hz (by rw [hsize]; decide)
    separate := separate_of_le hfb (by decide) hz (by decide) }
  have hcell : drawn [distant, close] = ⟨3, 3⟩ := by decide
  obtain ⟨hnearest, -, hperm⟩ := nearest_applyAll h [distant, close]
  have hold : cellAt fb st.depth m 0 0 = ⟨0, 0xFFFF⟩ := by decide
  refine ⟨hold ▸ hnearest 0 0 (by decide) (by decide), hcell, ?_⟩
  refine (hperm [close, distant] (.swap _ _ _) 0 0 (by decide)).2 ?_
  show ([distant, close].filter fun t ↦
    t.depthAt? 0 0 = some (drawn [distant, close]).depth).length ≤ 1
  rw [hcell]
  decide

end DisplayRaster
