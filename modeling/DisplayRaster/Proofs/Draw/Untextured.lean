import DisplayRaster.Proofs.Draw.Cells
import DisplayRaster.Proofs.Triangle.Orientation

/-!
# Draws that take no color from their texture

While the primitive or the environment color is drawn, a draw has one color everywhere
(`RenderState.flatColor`).  Its fragments are then known before it looks at memory: `flatRect`,
`flatTiles` and `flatTriangle` list them, and drawing is writing them in order, in whatever memory.
Nothing that only texels depend on has a part in these lists, neither the texture nor the selections
in `Texturing`.

A fragment without depth looks at no memory but its own pixel (`Fragment.sameHalf_write`).  So what
such a draw leaves at a place depends on what was at this place, and not on what the texture held.
-/

set_option autoImplicit false

namespace DisplayRaster

open Rdram

/-! ## What texels depend on -/

/-- The selections that only the texels of a draw depend on. -/
structure Texturing where
  table : Option LookupTable
  bank : UInt8
  filter : TextureFilter
  addressS : AddressMode
  addressT : AddressMode

/-- The state with other selections for texels. -/
def RenderState.withTexturing (st : RenderState) (tx : Texturing) : RenderState :=
  { st with
    table := tx.table
    bank := tx.bank
    filter := tx.filter
    addressS := tx.addressS
    addressT := tx.addressT }

/-- The color of a draw without a texture. -/
def RenderState.flatColor (st : RenderState) : UInt16 :=
  match st.combine with
  | .environment => st.envColor
  | _ => st.primColor

variable {fb : Framebuffer} {st : RenderState}

theorem Paint.choose_flat (hcombine : st.combine ≠ .texture) (tx : Texturing)
    (source? : Option TexelSource) :
    choose (st.withTexturing tx) source? = some (.flat st.flatColor) := by
  have hsame : (st.withTexturing tx).combine = st.combine := rfl
  rw [choose.eq_def, hsame, RenderState.flatColor]
  cases hmode : st.combine with
  | texture => exact absurd hmode hcombine
  | primitive => rfl
  | environment => rfl

/-! ## Fragments of one color -/

/-- The fragments of a rectangle in one color. -/
def flatRect (st : RenderState) (texture : Texture) (x y : Int) : List Fragment :=
  (rectRegion st.scissor texture x y).rowMajor.map fun p ↦ ⟨p.1, p.2, st.flatColor, false, none⟩

/-- The fragments of a tile grid in one color. -/
def flatTiles (fb : Framebuffer) (st : RenderState) (size spacing : UInt8) (offset : UInt16) :
    List Fragment :=
  if size = 0 then []
  else
    let period : Int := size.toNat + spacing.toNat
    let first : Int := offset.toNat % period - period
    (rangeList (stepCount 0 fb.height.toNat period) 0).flatMap fun row ↦
      (rangeList (stepCount first fb.width.toNat period) 0).flatMap fun column ↦
        flatRect st (.packed 0 size.toUInt32 size.toUInt32) (first + column * period) (row * period)

/-- The fragments of a triangle in one color. -/
def flatTriangle (fb : Framebuffer) (st : RenderState) (v : Corners Vertex) (carriesDepth : Bool) :
    List Fragment :=
  match Oriented.ofVertices v with
  | some tri =>
    (tri.region fb).rowMajor.filterMap fun p ↦
      let w := tri.weights p.1 p.2
      if coversValues tri.points w then
        some ⟨p.1, p.2, st.flatColor, false,
          if carriesDepth && st.testsDepth then some (tri.depthAt w) else none⟩
      else none
  | none => []

section

variable {μ : Type} [Memory μ] (hcombine : st.combine ≠ .texture) (tx : Texturing) (m : μ)

include hcombine

theorem drawRect_flat (source : TexelSource) (x y : Int) :
    drawRect fb (st.withTexturing tx) m source x y =
      (flatRect st source.texture x y).foldl (Fragment.write fb st) m := by
  rw [drawRect, Paint.choose_flat hcombine, flatRect, List.foldl_map]
  exact Region.foldRows_eq_foldl _ _ _

theorem drawTiles_flat (addr : UInt32) (size spacing : UInt8) (offset : UInt16) :
    drawTiles fb (st.withTexturing tx) m addr size spacing offset =
      (flatTiles fb st size spacing offset).foldl (Fragment.write fb st) m := by
  rw [drawTiles, flatTiles]
  split
  · rfl
  · simp only [foldRange_eq_foldl, List.foldl_flatMap, drawRect_flat hcombine]
    rfl

theorem drawTriangle_flat (v : Corners Vertex) (source? : Option TexelSource)
    (projection : Projection) (carriesDepth : Bool) :
    drawTriangle fb (st.withTexturing tx) m v source? projection carriesDepth =
      (flatTriangle fb st v carriesDepth).foldl (Fragment.write fb st) m := by
  rw [drawTriangle, Paint.choose_flat hcombine]
  -- rewriting would first prove an equation for `flatTriangle`, which takes seconds
  delta flatTriangle
  cases Oriented.ofVertices v with
  | none => rfl
  | some tri =>
    rw [List.foldl_filterMap]
    refine (Region.foldRows_eq_foldl _ _ _).trans (List.foldl_ext _ _ m fun m p _ ↦ ?_)
    cases hcovers : coversValues tri.points (tri.weights p.1 p.2) with
    | false =>
      simp only [Oriented.fragment, hcovers]
      rfl
    | true =>
      simp only [Oriented.fragment, hcovers]
      rfl

end

/-! ## Corners in the same places -/

/-- The pixel of a vertex. -/
def Vertex.pixel (v : Vertex) : Int32 × Int32 := (v.x, v.y)

theorem Oriented.depthAt_congr {tri tri' : Oriented} (harea : tri.area = tri'.area)
    (hz : tri.vertices.map Vertex.z = tri'.vertices.map Vertex.z) (w : Corners Int) :
    tri.depthAt w = tri'.depthAt w := by
  have hvalues : (tri.vertices.map fun v ↦ (v.z.toNat : Int)) =
      tri'.vertices.map fun v ↦ (v.z.toNat : Int) :=
    congrArg (Corners.map fun z : UInt16 ↦ (z.toNat : Int)) hz
  rw [depthAt, depthAt, hvalues, harea]

/-- The fragments of a triangle in one color depend on its pixels, and on its depths if it carries
them. -/
theorem flatTriangle_congr {v w : Corners Vertex} {carriesDepth : Bool}
    (hpixel : v.map Vertex.pixel = w.map Vertex.pixel)
    (hz : carriesDepth = true → v.map Vertex.z = w.map Vertex.z) :
    flatTriangle fb st v carriesDepth = flatTriangle fb st w carriesDepth := by
  have hpoint : v.map Vertex.point = w.map Vertex.point := by
    simp only [Corners.map, Vertex.pixel, Corners.mk.injEq, Prod.mk.injEq] at hpixel
    simp only [Corners.map, Vertex.point, hpixel]
  delta flatTriangle
  obtain ⟨hv, hw⟩ | ⟨tri, tri', hv, hw, hpoints, harea, hvertices⟩ :=
    Oriented.ofVertices_congr hpoint
  · rw [hv, hw]
  · rw [hv, hw]
    have hregion : tri.region fb = tri'.region fb := by
      rw [Oriented.region, Oriented.region, hpoints]
    have hweights (x y : Int) : tri.weights x y = tri'.weights x y := by
      rw [Oriented.weights, Oriented.weights, hpoints]
    simp only [hregion, hweights, hpoints]
    cases carriesDepth with
    | false => rfl
    | true =>
      have hdepths : tri.vertices.map Vertex.z = tri'.vertices.map Vertex.z := by
        obtain ⟨hv, hw⟩ | ⟨hv, hw⟩ := hvertices
        · rw [hv, hw, hz rfl]
        · rw [hv, hw, Corners.map_flip, Corners.map_flip, hz rfl]
      simp only [Oriented.depthAt_congr harea hdepths]

/-! ## Halfwords on their own -/

/-- Two memories have the same bytes in the `n`-th halfword. -/
def Rdram.SameHalf (n : Nat) (m m₁ : Rdram) : Prop := ∀ i, i / 2 = n → m₁.byte i = m.byte i

theorem Rdram.sameHalf_write16 {m m₁ : Rdram} {addr : UInt32} {n : Nat} (hf : m.Fits addr 2)
    (hf₁ : m₁.Fits addr 2) (value : UInt16) (h : SameHalf n m m₁) :
    SameHalf n (Memory.write16 m addr value).memory (Memory.write16 m₁ addr value).memory := by
  intro i hi
  refine (byte_write16 value hf₁ i).trans (Eq.trans ?_ (byte_write16 value hf i).symm)
  rw [h i hi]

/-- A fragment without depth makes of a halfword what it makes of it in any memory. -/
theorem Fragment.sameHalf_write {f : Fragment} (hdepth : f.depth = none) {m m₁ : Rdram}
    (hsize : m₁.size = m.size) {n : Nat} (h : SameHalf n m m₁) :
    SameHalf n (f.write fb st m) (f.write fb st m₁) := by
  rw [write, write, hdepth]
  by_cases hv : Visible fb st m f.x f.y
  · have hv₁ := visible_congr hsize hv
    have heven := physical_even hv.fits.aligned
    by_cases hn : physical (fb.addressOf f.x f.y) / 2 = n
    · have hold : Memory.halfOr 0 m₁ (fb.addressOf f.x f.y) =
          Memory.halfOr 0 m (fb.addressOf f.x f.y) := by
        refine halfOr_congr 0 hsize fun i hi ↦ h i ?_
        rcases hi with rfl | rfl <;> omega
      simp only [putPixel_of_visible hv, putPixel_of_visible hv₁, hold]
      cases f.survives st (Memory.halfOr 0 m (fb.addressOf f.x f.y)) with
      | none => exact h
      | some color => exact sameHalf_write16 hv.fits hv₁.fits color h
    · intro i hi
      have hout : ¬ InHalf (fb.addressOf f.x f.y) i := by
        rintro (rfl | rfl) <;> omega
      exact ((frame_putPixel_inHalf m₁ f).byte_eq i hout).trans
        ((h i hi).trans ((frame_putPixel_inHalf m f).byte_eq i hout).symm)
  · have hv₁ : ¬ Visible fb st m₁ f.x f.y := fun hv₁ ↦ hv (visible_congr hsize.symm hv₁)
    simp only [putPixel_of_not_visible hv, putPixel_of_not_visible hv₁]
    exact h

theorem sameHalf_foldl_write {fs : List Fragment} (hdepth : ∀ f ∈ fs, f.depth = none) {n : Nat}
    {m m₁ : Rdram} (hsize : m₁.size = m.size) (h : SameHalf n m m₁) :
    SameHalf n (fs.foldl (Fragment.write fb st) m) (fs.foldl (Fragment.write fb st) m₁) := by
  induction fs generalizing m m₁ with
  | nil => exact h
  | cons f fs ih =>
    have hwrite (m : Rdram) : (f.write fb st m).size = m.size :=
      (Fragment.frame_write_inCell m f).size_eq
    refine ih (fun g hg ↦ hdepth g (by simp [hg])) ?_
      (Fragment.sameHalf_write (hdepth f (by simp)) hsize h)
    rw [hwrite, hwrite, hsize]

/-! ## Draws with any texture -/

/-- The same rectangle or tile grid with another texture; the texture of a rectangle may be of
another format. -/
inductive Command.Retextured : Command → Command → Prop where
  | rect (r : Rect) (format : TexelFormat) (addr : UInt32) :
    Retextured (.rect r) (.rect { r with format := format, addr := addr })
  | tiles (addr addr' : UInt32) (size spacing : UInt8) (offset : UInt16) :
    Retextured (.tiles addr size spacing offset) (.tiles addr' size spacing offset)

/-- The fragments of a rectangle or a tile grid in one color. -/
def Command.flatFragments (fb : Framebuffer) (st : RenderState) : Command → List Fragment
  | .rect r => flatRect st r.source.texture r.x.toInt r.y.toInt
  | .tiles _ size spacing offset => flatTiles fb st size spacing offset
  | _ => []

theorem Command.Retextured.draw_flat {c c' : Command} (h : c.Retextured c')
    (hcombine : st.combine ≠ .texture) (tx : Texturing) {μ : Type} [Memory μ] (m : μ) :
    c'.draw fb (st.withTexturing tx) m =
      (c.flatFragments fb st).foldl (Fragment.write fb st) m := by
  cases h with
  | rect r format addr => exact drawRect_flat hcombine tx m _ _ _
  | tiles addr addr' size spacing offset =>
    exact drawTiles_flat hcombine tx m addr' size spacing offset

theorem Command.Retextured.refl_left {c c' : Command} (h : c.Retextured c') : c.Retextured c := by
  cases h with
  | rect r format addr => exact .rect r r.format r.addr
  | tiles addr addr' size spacing offset => exact .tiles addr addr size spacing offset

/-- The selections of a state for texels. -/
def RenderState.texturing (st : RenderState) : Texturing :=
  ⟨st.table, st.bank, st.filter, st.addressS, st.addressT⟩

theorem flat_of_mem_flatRect {texture : Texture} {x y : Int} {f : Fragment}
    (hf : f ∈ flatRect st texture x y) :
    f.color = st.flatColor ∧ f.punchThrough = false ∧ f.depth = none := by
  obtain ⟨p, -, rfl⟩ := List.mem_map.1 hf
  exact ⟨rfl, rfl, rfl⟩

/-- The fragments of a rectangle or a tile grid in one color are opaque and have no depth. -/
theorem Command.flat_of_mem_flatFragments {c : Command} {f : Fragment}
    (hf : f ∈ c.flatFragments fb st) :
    f.color = st.flatColor ∧ f.punchThrough = false ∧ f.depth = none := by
  cases c with
  | rect r => exact flat_of_mem_flatRect hf
  | tiles addr size spacing offset =>
    rw [flatFragments, flatTiles] at hf
    split at hf
    · cases hf
    · simp only [List.mem_flatMap] at hf
      obtain ⟨row, -, column, -, hf⟩ := hf
      exact flat_of_mem_flatRect hf
  | _ => cases hf

/-- **A draw that takes no color from its texture does not depend on it.**  A textured triangle is
the solid triangle on the same pixels, also if both carry the same depths.  A rectangle or a tile
grid writes the same fragments whatever its texture and whatever is in memory, so what it leaves in
a halfword depends on what the halfword held, even if texture and frame share memory. -/
theorem draw_untextured (fb : Framebuffer) {st : RenderState} (hcombine : st.combine ≠ .texture)
    (tx : Texturing) :
    (∀ {μ : Type} [Memory μ] (m : μ) (format : TriangleFormat) (projection : Projection)
        (texture : Texture) {v w : Corners Vertex}, v.map Vertex.pixel = w.map Vertex.pixel →
      Command.draw fb (.texTriangle format projection texture v) (st.withTexturing tx) m =
        Command.draw fb (.solidTriangle w) st m) ∧
    (∀ {μ : Type} [Memory μ] (m : μ) (projection : Projection) (texture : Texture)
        {v w : Corners Vertex}, v.map Vertex.pixel = w.map Vertex.pixel →
      v.map Vertex.z = w.map Vertex.z →
      Command.draw fb (.texTriangleDepth projection texture v) (st.withTexturing tx) m =
        Command.draw fb (.solidTriangleDepth w) st m) ∧
    ∀ {c c' : Command}, c.Retextured c' →
      (∀ {μ : Type} [Memory μ] (m : μ),
        c'.draw fb (st.withTexturing tx) m = c.draw fb st m ∧
        c.draw fb st m = (c.flatFragments fb st).foldl (Fragment.write fb st) m) ∧
      ∀ {m m₁ : Rdram} {n : Nat}, m₁.size = m.size → SameHalf n m m₁ →
        SameHalf n (c.draw fb st m) (c'.draw fb (st.withTexturing tx) m₁) := by
  have htriangle {μ : Type} [Memory μ] (m : μ) {source? : Option TexelSource}
      {projection : Projection} {carriesDepth : Bool} {v w : Corners Vertex}
      (hpixel : v.map Vertex.pixel = w.map Vertex.pixel)
      (hz : carriesDepth = true → v.map Vertex.z = w.map Vertex.z) :
      drawTriangle fb (st.withTexturing tx) m v source? projection carriesDepth =
        drawTriangle fb st m w none .affine carriesDepth := by
    rw [drawTriangle_flat hcombine, flatTriangle_congr hpixel hz]
    exact (drawTriangle_flat hcombine st.texturing m w none .affine carriesDepth).symm
  refine ⟨fun m format projection texture v w hpixel ↦ htriangle m hpixel (by simp),
    fun m projection texture v w hpixel hz ↦ htriangle m hpixel fun _ ↦ hz, fun {c c'} h ↦ ?_⟩
  have hflat {μ : Type} [Memory μ] (m : μ) :
      c.draw fb st m = (c.flatFragments fb st).foldl (Fragment.write fb st) m :=
    h.refl_left.draw_flat hcombine st.texturing m
  refine ⟨fun m ↦ ⟨?_, hflat m⟩, fun {m m₁ n} hsize hsame ↦ ?_⟩
  · rw [hflat m, h.draw_flat hcombine]
  · rw [hflat m, h.draw_flat hcombine]
    exact sameHalf_foldl_write (fun f hf ↦ (Command.flat_of_mem_flatFragments hf).2.2) hsize hsame

/-- Textures that could not be shown: an empty one, indices without a lookup table, and one that
lies in the framebuffer. -/
theorem draw_untextured_environment :
    let fb : Framebuffer := ⟨0, 4, 4, 4⟩
    let st : RenderState :=
      { RenderState.initial 4 4 with
        combine := .environment, envColor := 0x1235, depthEnabled := true, depth := ⟨32, 4, 4⟩ }
    let st' := st.withTexturing ⟨none, 3, .bilinear, .wrap, .mirror⟩
    let v : Corners Vertex := ⟨⟨0, 0, 5, 0, 0, 1⟩, ⟨4, 0, 0, 5, 0, 2⟩, ⟨0, 4, 0, 0, 9, 3⟩⟩
    let w : Corners Vertex := ⟨⟨0, 0, 0, 0, 1, 1⟩, ⟨4, 0, 0, 0, 1, 2⟩, ⟨0, 4, 0, 0, 1, 3⟩⟩
    let m := DepthBuffer.clear st.depth (Rdram.zeroed 64) 2
    let m₁ := (Memory.write16 m 4 0xFFFF).memory
    let rect : Command := .rect ⟨.rgba16, 0, 2, 2, 0, 0⟩
    let rect' : Command := .rect ⟨.ci8, 2, 2, 2, 0, 0⟩
    Command.draw fb (.texTriangle .ci4 .perspective ⟨0, 0, 0, 0⟩ v) st' m =
        Command.draw fb (.solidTriangle w) st m ∧
      Command.draw fb (.texTriangleDepth .affine ⟨0, 4, 4, 4⟩ v) st' m =
        Command.draw fb (.solidTriangleDepth w) st m ∧
      rect'.draw fb st' m = rect.draw fb st m ∧
      (rect'.draw fb st' m₁).byte 0 = (rect.draw fb st m).byte 0 ∧
      (rect.draw fb st m).byte 0 = 0x12 := by
  intro fb st st' v w m m₁ rect rect'
  obtain ⟨htriangle, hdepth, hrect⟩ := draw_untextured fb
    (show st.combine ≠ .texture by decide) ⟨none, 3, .bilinear, .wrap, .mirror⟩
  obtain ⟨hsame, hhalf⟩ := hrect (.rect ⟨.rgba16, 0, 2, 2, 0, 0⟩ .ci8 2)
  have hmemory : SameHalf 0 m m₁ := by
    intro i hi
    exact (Frame.write16 (s := InHalf 4) m 0xFFFF fun _ h ↦ h).byte_eq i (by
      have hplace : physical 4 = 4 := rfl
      rintro (rfl | rfl) <;> omega)
  refine ⟨htriangle m .ci4 .perspective ⟨0, 0, 0, 0⟩ rfl, hdepth m .affine ⟨0, 4, 4, 4⟩ rfl rfl,
    (hsame m).1, hhalf (size_write16 m 4 0xFFFF) hmemory 0 rfl, by decide⟩

end DisplayRaster
