import DisplayRaster.Proofs.Draw.Sequence
import DisplayRaster.Proofs.Triangle.Quad

/-!
# Two triangles draw what a rectangle draws

A rectangle of triangles whose texture coordinate grows by one texel a pixel has one fragment on
each of its pixels, with the texel that addressing finds there (`Quad.filter_isAt_fragments`).  Its
texture may start anywhere and be folded in any way.  If it starts at the first texel and is as
large as the rectangle, this is what the rectangle command draws (`Quad.draws_rectangle`).

Neither looks at the depth buffer, so nothing is asked of it; the proofs take it away first.
-/

set_option autoImplicit false

namespace DisplayRaster

open Rdram

/-! ## Draws without depth -/

/-- The state with no depth buffer. -/
def RenderState.withoutDepth (st : RenderState) : RenderState := { st with depth := .unset }

section

variable (fb : Framebuffer) (st : RenderState) (m : Rdram)

/-- A triangle without depth does not look at the depth buffer. -/
theorem drawTriangle_withoutDepth (v : Corners Vertex) (source? : Option TexelSource)
    (projection : Projection) :
    drawTriangle fb st m v source? projection false =
      drawTriangle fb st.withoutDepth m v source? projection false := by
  have hchoose : Paint.choose st.withoutDepth source? = Paint.choose st source? := rfl
  rw [drawTriangle, drawTriangle, hchoose]
  cases Paint.choose st source? with
  | none => rfl
  | some paint =>
    cases Oriented.ofVertices v with
    | none => rfl
    | some tri =>
      simp only [Region.foldRows_eq_foldl]
      refine List.foldl_ext _ _ m fun m p _ ↦ ?_
      by_cases hcovers : tri.covers p.1 p.2 = true
      · rw [Oriented.fragment_of_covers hcovers, Oriented.fragment_of_covers hcovers]
        rfl
      · rw [Oriented.fragment_of_not_covers hcovers, Oriented.fragment_of_not_covers hcovers]

theorem drawRect_withoutDepth (source : TexelSource) (x y : Int) :
    drawRect fb st m source x y = drawRect fb st.withoutDepth m source x y :=
  rfl

end

/-! ## The fragments of a rectangle of triangles -/

/-- The color of a paint at a whole texture coordinate. -/
def Paint.colorFolded (paint : Paint) (st : RenderState) (m : Rdram) (s t : Int) : UInt16 :=
  match paint with
  | .flat color => color
  | .texels source => texelFolded st m source s t

/-- Inside its texture a coordinate stands for itself, in every mode. -/
theorem AddressMode.fold_of_lt (mode : AddressMode) {coord : Int} {size : UInt32} (h0 : 0 ≤ coord)
    (hlt : coord < size.toNat) (hsize : size.toNat ≤ 0x3FFFFFFF) :
    mode.fold coord size = coord.toNat := by
  refine fold_of_lt_period mode h0 ?_
  rw [period]
  omega

/-- A texture without gaps is given by its size. -/
theorem Texture.packed_eq {texture : Texture} (h : texture.pitch = texture.width) :
    packed texture.addr texture.width texture.height = texture := by
  obtain ⟨addr, width, height, pitch⟩ := texture
  obtain rfl : pitch = width := h
  rfl

namespace Quad

/-- The commands that draw both halves. -/
def commands (q : Quad) (format : TriangleFormat) (texture : Texture) : List Command :=
  [.texTriangle format .affine texture q.upper, .texTriangle format .affine texture q.lower]

/-- The fragment on a pixel of the rectangle. -/
def plot (q : Quad) (st : RenderState) (m : Rdram) (paint : Paint) (x y : Int) : Fragment where
  x := x
  y := y
  color := paint.colorFolded st m (q.s0.toInt + (x - q.x0.toInt)) (q.t0.toInt + (y - q.y0.toInt))
  punchThrough := paint.punchThrough
  depth := none

variable {q : Quad} {fb : Framebuffer} {st : RenderState} {m : Rdram} {paint : Paint}
  {format : TriangleFormat} {texture : Texture} {x y : Int}

/-- Each half has the fragment of the rectangle on the pixels it covers, and no other. -/
theorem Half.fragment_eq {tri : Oriented} {side : Int → Prop} (h : q.Half tri side)
    [Decidable (side (q.diagonal x y))] :
    tri.fragment st paint .affine false m x y =
      if q.Contains x y ∧ side (q.diagonal x y) then some (q.plot st m paint x y) else none := by
  by_cases hcovers : tri.covers x y = true
  · have hin := (h.covers_iff x y).1 hcovers
    rw [if_pos hin, Oriented.fragment_of_covers hcovers]
    cases paint with
    | flat color => rfl
    | texels source =>
      have hcolor : sample st m source
          (TextureCoord.affine (tri.weights x y) tri.vertices tri.area) = _ :=
        sample_of_middle (h.isMiddle_s hin.1) (h.isMiddle_t hin.1) st m source
      exact congrArg (fun color ↦ some (Fragment.mk x y color true none)) hcolor
  · rw [if_neg fun hin ↦ hcovers ((h.covers_iff x y).2 hin),
      Oriented.fragment_of_not_covers hcovers]

theorem fragments_commands (q : Quad) (fb : Framebuffer) (st : RenderState) (m : Rdram)
    (format : TriangleFormat) (texture : Texture) :
    (q.commands format texture).flatMap (fun c ↦ c.fragments fb st m) =
      triangleFragments fb st m q.upper (some ⟨format.texel, texture⟩) .affine false ++
        triangleFragments fb st m q.lower (some ⟨format.texel, texture⟩) .affine false :=
  congrArg (_ ++ ·) (List.append_nil _)

/-- **A pixel of the rectangle has one fragment**, from one of the halves. -/
theorem filter_isAt_fragments
    (hchoose : Paint.choose st (some ⟨format.texel, texture⟩) = some paint)
    (hfb : fb.contains x y = true) :
    ((q.commands format texture).flatMap fun c ↦ c.fragments fb st m).filter
        (Fragment.isAt x y) =
      if q.Contains x y then [q.plot st m paint x y] else [] := by
  obtain ⟨upper, hupper, hhalf⟩ := q.exists_upper
  obtain ⟨lower, hlower, hhalf'⟩ := q.exists_lower
  rw [fragments_commands, List.filter_append,
    filter_isAt_triangleFragments hchoose hupper m _ _ hfb,
    filter_isAt_triangleFragments hchoose hlower m _ _ hfb, Bool.false_and, hhalf.fragment_eq,
    hhalf'.fragment_eq]
  by_cases hxy : q.Contains x y
  · simp only [hxy, true_and, if_true]
    by_cases hside : 0 < q.diagonal x y
    · rw [if_pos hside, if_neg (by omega)]
      rfl
    · rw [if_neg hside, if_pos (by omega)]
      rfl
  · simp only [hxy, false_and, if_false]
    rfl

/-- Drawing both halves is writing the fragments of both. -/
theorem applyAll_eq_writeAll (hapart : TexelSource.Apart ⟨format.texel, texture⟩ fb st.depth) :
    (Command.applyAll fb (q.commands format texture) st m).2 =
      writeAll fb st ((q.commands format texture).flatMap fun c ↦ c.fragments fb st m) m := by
  have hsource : ∀ source, some (TexelSource.mk format.texel texture) = some source →
      source.Apart fb st.depth := fun _ he ↦ Option.some.inj he ▸ hapart
  have hkept (fs : List Fragment) :
      Frame (fun i ↦ ∀ source, some (TexelSource.mk format.texel texture) = some source →
        ¬ source.Owns i) m (writeAll fb st fs m) :=
    (hapart.frame_writeAll fs m).mono fun i hi _ he ↦ Option.some.inj he ▸ hi
  show drawTriangle fb st (drawTriangle fb st m q.upper _ .affine false) q.lower _ .affine false = _
  rw [drawTriangle_eq_writeAll hsource, drawTriangle_eq_writeAll hsource,
    triangleFragments_congr (hkept _), ← writeAll_append, fragments_commands]

/-! ## The rectangle command -/

/-- The texture starts at the first texel and is as large as the rectangle. -/
structure Matches (q : Quad) (texture : Texture) : Prop where
  s0_eq : q.s0 = 0
  t0_eq : q.t0 = 0
  width_eq : q.width = texture.width.toNat
  height_eq : q.height = texture.height.toNat

/-- A matching texture is shown texel for pixel. -/
theorem Matches.plot_eq (h : q.Matches texture) (hxy : q.Contains x y)
    (hpaint : ∀ source, paint = .texels source → source.texture = texture) :
    q.plot st m paint x y = rectFragment st paint m q.x0.toInt q.y0.toInt x y := by
  obtain ⟨hs0, ht0, hw, hh⟩ := h
  obtain ⟨hx, hx1, hy, hy1⟩ := hxy
  have hwle := q.width_le
  have hhle := q.height_le
  have h0 : (0 : Int32).toInt = 0 := rfl
  cases paint with
  | flat color => rfl
  | texels source =>
    obtain rfl := hpaint source rfl
    rw [plot, rectFragment, Paint.colorFolded, Paint.colorAtTexel, texelFolded, hs0, ht0, h0,
      zero_add, zero_add,
      AddressMode.fold_of_lt _ (by omega) (by rw [← hw, width]; omega) (by omega),
      AddressMode.fold_of_lt _ (by omega) (by rw [← hh, height]; omega) (by omega)]

/-- **Both halves draw what the rectangle command draws** if the texture matches. -/
theorem Matches.applyAll_eq (h : q.Matches texture) (hfb : fb.Separate)
    (hz : st.depth = .unset)
    (hapart : TexelSource.Apart ⟨format.texel, texture⟩ fb st.depth) :
    (Command.applyAll fb (q.commands format texture) st m).2 =
      drawRect fb st m ⟨format.texel, texture⟩ q.x0.toInt q.y0.toInt := by
  rw [applyAll_eq_writeAll hapart, drawRect_eq_writeAll hapart]
  cases hchoose : Paint.choose st (some ⟨format.texel, texture⟩) with
  | none =>
    -- without a paint there are no fragments in either
    have htriangle (v : Corners Vertex) :
        triangleFragments fb st m v (some ⟨format.texel, texture⟩) .affine false = [] := by
      rw [triangleFragments, hchoose]
    rw [fragments_commands, htriangle, htriangle, rectFragments, hchoose]
    rfl
  | some paint =>
    refine writeAll_ext hfb hz fun x y hv ↦ ?_
    have hregion : (rectRegion st.scissor texture q.x0.toInt q.y0.toInt).Contains x y ↔
        q.Contains x y := by
      have hw := h.width_eq
      have hh := h.height_eq
      rw [width] at hw
      rw [height] at hh
      simp only [contains_rectRegion, hv.unclipped, and_true, Contains]
      omega
    classical
    rw [filter_isAt_fragments hchoose hv.drawable, filter_isAt_rectFragments hchoose]
    by_cases hxy : q.Contains x y
    · rw [if_pos hxy, if_pos (hregion.2 hxy), h.plot_eq hxy fun source hpaint ↦ ?_]
      rw [hpaint] at hchoose
      rw [← Option.some.inj (Paint.source_of_choose hchoose).1]
    · rw [if_neg hxy, if_neg fun hin ↦ hxy (hregion.1 hin)]

/-- **A rectangle in two triangles is a rectangle.**  With the texture as the source of color, each
of its pixels inside the framebuffer and the scissor is drawn once, with the texel that addressing
finds for it, and nothing else changes.  If the texture starts in the upper left corner, is as large
as the rectangle and has no gap between its rows, the memory is the one that the rectangle command
leaves, whatever the source of color is and whether there is anything to draw or not. -/
theorem draws_rectangle (q : Quad) (hfb : fb.Separate)
    (hfits : ∀ {x y : Int}, fb.contains x y = true → m.Fits (fb.addressOf x y) 2)
    (hapart : ∀ i, TexelSource.Owns ⟨format.texel, texture⟩ i → ¬ fb.Owns i) :
    let drawn := (Command.applyAll fb (q.commands format texture) st m).2
    (st.combine = .texture → texture.isEmpty = false →
        (format.texel.isIndexed = true → st.table.isSome = true) →
      let texel (x y : Int) : UInt16 :=
        texelAt st m ⟨format.texel, texture⟩
          (st.addressS.fold (q.s0.toInt + (x - q.x0.toInt)) texture.width)
          (st.addressT.fold (q.t0.toInt + (y - q.y0.toInt)) texture.height)
      let plot (x y : Int) : Fragment := ⟨x, y, texel x y, true, none⟩
      (∀ x y, fb.contains x y = true →
        ((q.commands format texture).flatMap fun c ↦ c.fragments fb st m).filter
            (Fragment.isAt x y) = if q.Contains x y then [plot x y] else []) ∧
      (∀ x y, q.Contains x y → fb.contains x y = true → st.scissor.contains x y = true →
        Memory.read16 drawn (fb.addressOf x y) =
          .ok ((plot x y).paintOver st (Memory.halfOr 0 m (fb.addressOf x y)))) ∧
      drawn.size = m.size ∧
      ∀ i, drawn.byte i ≠ m.byte i → ∃ x y, q.Contains x y ∧ fb.contains x y = true ∧
        st.scissor.contains x y = true ∧ InHalf (fb.addressOf x y) i) ∧
    (q.Matches texture → texture.pitch = texture.width →
      drawn = (Command.rect ⟨format.texel, texture.addr, texture.width, texture.height, q.x0,
        q.y0⟩).draw fb st m) := by
  intro drawn
  have hapart' : TexelSource.Apart ⟨format.texel, texture⟩ fb st.withoutDepth.depth := fun i hi ↦
    ⟨hapart i hi, RenderState.not_owns_initial 0 0 i⟩
  have hdrawn : drawn = (Command.applyAll fb (q.commands format texture) st.withoutDepth m).2 := by
    show drawTriangle fb st (drawTriangle fb st m q.upper _ .affine false) q.lower _ .affine
      false = drawTriangle fb st.withoutDepth
        (drawTriangle fb st.withoutDepth m q.upper _ .affine false) q.lower _ .affine false
    rw [drawTriangle_withoutDepth fb st m, drawTriangle_withoutDepth fb st]
  refine ⟨?_, fun hmatches hpitch ↦ ?_⟩
  · intro hcombine hsize htable texel plot
    have hchoose : Paint.choose st (some ⟨format.texel, texture⟩) =
        some (.texels ⟨format.texel, texture⟩) := Paint.choose_texels hcombine hsize htable
    have hfragments (x y : Int) (hxy : fb.contains x y = true) :
        ((q.commands format texture).flatMap fun c ↦ c.fragments fb st m).filter
            (Fragment.isAt x y) = if q.Contains x y then [plot x y] else [] :=
      filter_isAt_fragments hchoose hxy
    have hwritten : drawn = writeAll fb st.withoutDepth
        ((q.commands format texture).flatMap fun c ↦ c.fragments fb st m) m := by
      rw [hdrawn, applyAll_eq_writeAll hapart', fragments_commands, fragments_commands]
      rfl
    have hsize : drawn.size = m.size := by
      rw [hwritten]
      exact (frame_writeAll _ m).size_eq
    refine ⟨hfragments, fun x y hin hxy hscissor ↦ ?_, hsize, fun i hi ↦ ?_⟩
    · have hv : Visible fb st.withoutDepth m x y := ⟨hxy, hscissor, hfits hxy⟩
      have hcell := cellAt_writeAll (separate_unset hfb) hv
        ((q.commands format texture).flatMap fun c ↦ c.fragments fb st m)
      rw [← hwritten, hfragments x y hxy, if_pos hin] at hcell
      rw [read16_eq_ok 0 ((fits_congr hsize).2 (hfits hxy))]
      exact congrArg (fun c ↦ Except.ok (Cell.color c)) hcell
    · rw [hwritten] at hi
      obtain ⟨f, hf, hv, hcell⟩ := (frame_writeAll _ m).mem_of_byte_ne hi
      have hat : f ∈ ((q.commands format texture).flatMap fun c ↦ c.fragments fb st m).filter
          (Fragment.isAt f.x f.y) := List.mem_filter.2 ⟨hf, Fragment.isAt_eq_true.2 ⟨rfl, rfl⟩⟩
      rw [hfragments f.x f.y hv.drawable] at hat
      have hin : q.Contains f.x f.y := by
        by_contra hin
        rw [if_neg hin] at hat
        exact List.not_mem_nil hat
      refine ⟨f.x, f.y, hin, hv.drawable, hv.unclipped, ?_⟩
      rcases hcell with hpixel | ⟨hsample, -⟩
      · exact hpixel
      · exact absurd hsample (Bool.eq_false_iff.1 (DepthBuffer.contains_unset _ _))
  · have hsource : (Rect.mk format.texel texture.addr texture.width texture.height q.x0
        q.y0).source = ⟨format.texel, texture⟩ :=
      congrArg (TexelSource.mk format.texel) (Texture.packed_eq hpitch)
    rw [hdrawn, hmatches.applyAll_eq hfb rfl hapart', ← drawRect_withoutDepth, ← hsource]
    rfl

/-- A square of two by two pixels, half of it off screen, under bilinear filtering. -/
theorem draws_rectangle_offscreen :
    let q : Quad := {
      x0 := -1, y0 := 1, x1 := 1, y1 := 3, s0 := 0, t0 := 0
      x_lt := by decide, y_lt := by decide, abs_x0_le := by decide, abs_y0_le := by decide
      abs_x1_le := by decide, abs_y1_le := by decide, s1_lt := by decide, t1_lt := by decide }
    let fb : Framebuffer := ⟨0, 4, 4, 4⟩
    let st : RenderState := { RenderState.initial 4 4 with filter := .bilinear }
    let texture : Texture := ⟨64, 2, 2, 2⟩
    let m := (Memory.write16 (Rdram.zeroed 128) 66 0xF801).memory
    let drawn := (Command.applyAll fb (q.commands .rgba16 texture) st m).2
    Memory.read16 drawn (fb.addressOf 0 1) = .ok 0xF801 ∧
      drawn = (Command.rect ⟨.rgba16, 64, 2, 2, -1, 1⟩).draw fb st m := by
  intro q fb st texture m drawn
  have hrows : Rows fb.origin fb.stride fb.height.toNat := ⟨by decide, by decide⟩
  have htexture : Rows texture.addr texture.pitch texture.height.toNat := ⟨by decide, by decide⟩
  have hsize : m.size = 128 := by decide +kernel
  have hfits {x y : Int} (hxy : fb.contains x y = true) : m.Fits (fb.addressOf x y) 2 :=
    Framebuffer.fits_of_rows hrows (by decide) (by rw [hsize]; decide) hxy
  have hapart : ∀ i, TexelSource.Owns ⟨.rgba16, texture⟩ i → ¬ fb.Owns i := by
    intro i hi hp
    have hlow := (hi.bounds htexture (by decide)).1
    have hhigh := (hp.bounds hrows (by decide)).2
    have haddr : physical texture.addr = 64 := by decide
    have horigin : physical fb.origin + 2 * (fb.height.toNat * fb.stride.toNat) = 32 := by decide
    omega
  obtain ⟨htexels, hrect⟩ := @draws_rectangle fb st m .rgba16 texture q
    (Framebuffer.separate_of_rows hrows (by decide)) hfits hapart
  obtain ⟨-, hpixel, -⟩ := htexels rfl rfl (by decide)
  have hblit := hrect ⟨rfl, rfl, by decide, by decide⟩ rfl
  refine ⟨(hpixel 0 1 (by decide) (by decide) (by decide)).trans ?_, hblit⟩
  exact congrArg Except.ok (by decide +kernel)

end Quad

end DisplayRaster
