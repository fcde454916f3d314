import DisplayRaster.Proofs.Draw.Cells
import Mathlib.Data.List.Nodup

/-!
# Draws as sequences of fragments

A draw reads its texture while it writes the frame.  If the texture lies apart from the frame
(`TexelSource.Apart`) it stays what it was, so all fragments of the draw can be made beforehand:
`Command.fragments` lists them, and drawing is writing this list (`Command.draw_eq_writeAll`).

Every draw has a fragment list, also a gradient, which neither blends nor looks at the framebuffer:
its fragments are those of the scissor, in a state without blending (`Command.drawState`).
-/

set_option autoImplicit false

namespace DisplayRaster

open Rdram

/-! ## Textures that stay -/

/-- The bytes of a texel. -/
def TexelSource.InTexel (source : TexelSource) (s t : Nat) (i : Nat) : Prop :=
  let index := source.texture.texelIndex s t
  match source.format with
  | .ci4 | .i4 => i = physical (source.texture.addr + index / 2)
  | .ci8 | .i8 | .ia8 => i = physical (source.texture.addr + index)
  | .ia16 | .rgba16 => InHalf (source.texture.addr + index * 2) i

/-- The bytes of the texels of a texture. -/
def TexelSource.Owns (source : TexelSource) (i : Nat) : Prop :=
  ∃ s t, s < source.texture.width.toNat ∧ t < source.texture.height.toNat ∧ source.InTexel s t i

/-- The texture has no byte in common with a pixel or a sample. -/
def TexelSource.Apart (source : TexelSource) (fb : Framebuffer) (z : DepthBuffer) : Prop :=
  ∀ i, source.Owns i → ¬ fb.Owns i ∧ ¬ z.Owns i

/-- The bytes of a direct color texture in rows. -/
theorem TexelSource.Owns.bounds {texture : Texture} {i : Nat}
    (hi : TexelSource.Owns ⟨.rgba16, texture⟩ i)
    (h : Rows texture.addr texture.pitch texture.height.toNat)
    (hwidth : texture.width.toNat ≤ texture.pitch.toNat) :
    physical texture.addr ≤ i ∧
      i < physical texture.addr + 2 * (texture.height.toNat * texture.pitch.toNat) := by
  obtain ⟨s, t, hs, ht, hi⟩ := hi
  have hi : InHalf (texture.addr + texture.texelIndex s t * 2) i := hi
  exact h.bounds_of_inHalf (Nat.lt_of_lt_of_le hs hwidth) ht hi

/-- A texture above a framebuffer and a depth buffer. -/
theorem TexelSource.apart_of_above {source : TexelSource} {fb : Framebuffer} {z : DepthBuffer}
    {start : Nat} (hstart : ∀ i, source.Owns i → start ≤ i)
    (hfb : Rows fb.origin fb.stride fb.height.toNat) (hfbwidth : fb.width.toNat ≤ fb.stride.toNat)
    (hfble : physical fb.origin + 2 * (fb.height.toNat * fb.stride.toNat) ≤ start)
    (hz : Rows z.addr z.width z.height.toNat)
    (hzle : physical z.addr + 2 * (z.height.toNat * z.width.toNat) ≤ start) :
    source.Apart fb z := by
  intro i hi
  have hle := hstart i hi
  constructor
  · intro hp
    have hpbounds := hp.bounds hfb hfbwidth
    omega
  · intro hs
    have hsbounds := hs.bounds hz
    omega

/-- A direct color texture above a framebuffer and a depth buffer. -/
theorem TexelSource.apart_of_le {fb : Framebuffer} {z : DepthBuffer} {texture : Texture}
    (h : Rows texture.addr texture.pitch texture.height.toNat)
    (hwidth : texture.width.toNat ≤ texture.pitch.toNat)
    (hfb : Rows fb.origin fb.stride fb.height.toNat) (hfbwidth : fb.width.toNat ≤ fb.stride.toNat)
    (hfble : physical fb.origin + 2 * (fb.height.toNat * fb.stride.toNat) ≤ physical texture.addr)
    (hz : Rows z.addr z.width z.height.toNat)
    (hzle : physical z.addr + 2 * (z.height.toNat * z.width.toNat) ≤ physical texture.addr) :
    TexelSource.Apart ⟨.rgba16, texture⟩ fb z :=
  apart_of_above (fun _ hi ↦ (hi.bounds h hwidth).1) hfb hfbwidth hfble hz hzle

/-- The bytes of the texture that a paint shows. -/
def Paint.Owns (paint : Paint) (i : Nat) : Prop :=
  match paint with
  | .flat _ => False
  | .texels source => source.Owns i

/-- A paint that shows no empty texture. -/
def Paint.Proper (paint : Paint) : Prop :=
  ∀ source, paint = .texels source → source.texture.isEmpty = false

section

variable {fb : Framebuffer} {st : RenderState} {m m₁ : Rdram} {source : TexelSource} {paint : Paint}

theorem texelAt_congr (hsize : m₁.size = m.size) {s t : Nat}
    (h : ∀ i, source.InTexel s t i → m₁.byte i = m.byte i) :
    texelAt st m₁ source s t = texelAt st m source s t := by
  obtain ⟨format, texture⟩ := source
  cases format with
  | ci4 | i4 | ci8 | i8 | ia8 => simp only [texelAt, byteOrZero_congr hsize (h _ rfl)]
  | ia16 | rgba16 => simp only [texelAt, halfOr_congr 0 hsize h]

theorem AddressMode.fold_lt_size (mode : AddressMode) (coord : Int) {size : UInt32}
    (h : size ≠ 0) : mode.fold coord size < size.toNat := by
  have hlt := fold_lt mode coord size
  have hne : size.toNat ≠ 0 := fun h0 ↦ h (UInt32.toNat_inj.1 h0)
  rw [period] at hlt
  omega

theorem texelFolded_congr (hempty : source.texture.isEmpty = false)
    (h : Frame (fun i ↦ ¬ source.Owns i) m m₁) (s t : Int) :
    texelFolded st m₁ source s t = texelFolded st m source s t := by
  simp only [Texture.isEmpty, Bool.or_eq_false_iff, decide_eq_false_iff_not] at hempty
  refine texelAt_congr h.size_eq fun i hi ↦ h.byte_eq i (not_not_intro ?_)
  exact ⟨_, _, AddressMode.fold_lt_size _ s hempty.1, AddressMode.fold_lt_size _ t hempty.2, hi⟩

/-- Sampling reads the texture only. -/
theorem sample_congr (hempty : source.texture.isEmpty = false)
    (h : Frame (fun i ↦ ¬ source.Owns i) m m₁) (coord : TextureCoord) :
    sample st m₁ source coord = sample st m source coord := by
  have hnearest : sampleNearest st m₁ source coord = sampleNearest st m source coord :=
    texelFolded_congr hempty h _ _
  have htaps : bilinearTaps st m₁ source coord = bilinearTaps st m source coord := by
    simp only [bilinearTaps, texelFolded_congr hempty h]
  rw [sample, sample, hnearest, htaps]

theorem Paint.colorAt_congr (hproper : paint.Proper) (h : Frame (fun i ↦ ¬ paint.Owns i) m m₁)
    (coord : Unit → TextureCoord) : paint.colorAt st m₁ coord = paint.colorAt st m coord := by
  cases paint with
  | flat color => rfl
  | texels source => exact sample_congr (hproper source rfl) h _

theorem Paint.colorAtTexel_congr (h : Frame (fun i ↦ ¬ paint.Owns i) m m₁) {s t : Int}
    (htexel : ∀ source, paint = .texels source →
      s.toNat < source.texture.width.toNat ∧ t.toNat < source.texture.height.toNat) :
    paint.colorAtTexel st m₁ s t = paint.colorAtTexel st m s t := by
  cases paint with
  | flat color => rfl
  | texels source =>
    obtain ⟨hs, ht⟩ := htexel source rfl
    refine texelAt_congr h.size_eq fun i hi ↦ h.byte_eq i (not_not_intro ?_)
    exact ⟨_, _, hs, ht, hi⟩

/-- A chosen paint shows the texture of the draw or none. -/
theorem Paint.source_of_choose {source? : Option TexelSource}
    (h : Paint.choose st source? = some (.texels source)) :
    source? = some source ∧ source.texture.isEmpty = false := by
  rw [choose.eq_def] at h
  split at h
  · cases h
  · cases h
  · split at h
    · cases h
    · split at h
      · cases h
      · next hempty =>
        split at h
        · cases h
        · cases h
          exact ⟨rfl, Bool.eq_false_iff.2 hempty⟩

/-- A texture is the paint if it is the source of color and can be shown. -/
theorem Paint.choose_texels (hcombine : st.combine = .texture)
    (hsize : source.texture.isEmpty = false)
    (htable : source.format.isIndexed = true → st.table.isSome = true) :
    choose st (some source) = some (.texels source) := by
  have hready : (source.format.isIndexed && st.table.isNone) = false := by
    cases hindexed : source.format.isIndexed with
    | false => rfl
    | true => rw [Bool.true_and, ← Option.not_isSome, htable hindexed, Bool.not_true]
  rw [choose.eq_def, hcombine]
  simp only [hsize, hready, Bool.false_eq_true, if_false]

theorem Paint.proper_of_choose {source? : Option TexelSource}
    (h : Paint.choose st source? = some paint) : paint.Proper := by
  rintro source rfl
  exact (source_of_choose h).2

/-- The bytes outside a paint's texture hold all pixels and samples if the texture is apart. -/
theorem Paint.not_owns_of_choose {source? : Option TexelSource}
    (h : Paint.choose st source? = some paint)
    (hsource : ∀ source, source? = some source → source.Apart fb st.depth) {i : Nat}
    (hi : fb.Owns i ∨ st.depth.Owns i) : ¬ paint.Owns i := by
  cases paint with
  | flat color => exact fun hp ↦ hp
  | texels source =>
    intro hp
    obtain ⟨hfb, hz⟩ := hsource source (source_of_choose h).1 i hp
    rcases hi with hi | hi
    · exact hfb hi
    · exact hz hi

/-- What leaves the texture of a draw alone leaves its paint alone. -/
theorem Paint.frame_of_choose {source? : Option TexelSource}
    (hchoose : Paint.choose st source? = some paint)
    (h : Frame (fun i ↦ ∀ source, source? = some source → ¬ source.Owns i) m m₁) :
    Frame (fun i ↦ ¬ paint.Owns i) m m₁ := by
  refine h.mono fun i hi ↦ ?_
  cases paint with
  | flat color => exact fun hp ↦ hp
  | texels source => exact hi source (source_of_choose hchoose).1

/-- Fragments leave a texture alone that is apart from the frame. -/
theorem TexelSource.Apart.frame_writeAll (h : source.Apart fb st.depth) (fs : List Fragment)
    (m : Rdram) : Frame (fun i ↦ ¬ source.Owns i) m (writeAll fb st fs m) :=
  Frame.foldl (fun m f _ ↦ Fragment.frame_write (fun i hi ho ↦ (h i ho).1 hi)
    (fun i hi ho ↦ (h i ho).2 hi) m f) m

/-- A fragment leaves a paint's texture alone. -/
theorem Fragment.frame_write_paint {source? : Option TexelSource}
    (h : Paint.choose st source? = some paint)
    (hsource : ∀ source, source? = some source → source.Apart fb st.depth) (m : Rdram)
    (f : Fragment) : Frame (fun i ↦ ¬ paint.Owns i) m (f.write fb st m) :=
  frame_write (fun _ hi ↦ Paint.not_owns_of_choose h hsource (.inl hi))
    (fun _ hi ↦ Paint.not_owns_of_choose h hsource (.inr hi)) m f

end

/-! ## Fragments of regions -/

section

variable {fb : Framebuffer} {st : RenderState} {m : Rdram}

/-- A sequence of steps whose inputs the sequence itself does not change. -/
theorem Rdram.Frame.foldl_congr {α : Type} {s : Nat → Prop} {f g : Rdram → α → Rdram} {l : List α}
    (hg : ∀ m, ∀ a ∈ l, Frame s m (g m a))
    (h : ∀ m₁, Frame s m m₁ → ∀ a ∈ l, f m₁ a = g m₁ a) : l.foldl f m = l.foldl g m := by
  induction l generalizing m with
  | nil => rfl
  | cons a l ih =>
    rw [List.foldl_cons, List.foldl_cons, h m (Frame.refl s m) a (by simp)]
    refine ih (fun m b hb ↦ hg m b (by simp [hb])) fun m₁ hm₁ b hb ↦ ?_
    exact h m₁ ((hg m a (by simp)).trans hm₁) b (by simp [hb])

/-- Visiting a region is writing the fragments made beforehand, if what they are made from stays. -/
theorem Region.foldRows_eq_writeAll {s : Nat → Prop} {r : Region}
    {F : Rdram → Int → Int → Option Fragment} (hs : ∀ m f, Frame s m (Fragment.write fb st m f))
    (hF : ∀ m₁, Frame s m m₁ → ∀ x y, r.Contains x y → F m₁ x y = F m x y) :
    r.foldRows (fun m x y ↦
      match F m x y with
      | some f => f.write fb st m
      | none => m) m = writeAll fb st (r.rowMajor.filterMap fun p ↦ F m p.1 p.2) m := by
  rw [foldRows_eq_foldl, writeAll, List.foldl_filterMap]
  refine Frame.foldl_congr (s := s) (fun m₁ p _ ↦ ?_) fun m₁ hm₁ p hp ↦ ?_
  · cases F m p.1 p.2 with
    | none => exact Frame.refl s m₁
    | some f => exact hs m₁ f
  · rw [hF m₁ hm₁ p.1 p.2 (mem_rowMajor.1 hp)]
    cases F m p.1 p.2 <;> rfl

theorem nodup_rangeList (count : Nat) (start : Int) : (rangeList count start).Nodup := by
  induction count generalizing start with
  | zero => exact List.nodup_nil
  | succ count ih =>
    refine List.nodup_cons.2 ⟨fun hmem ↦ ?_, ih (start + 1)⟩
    rw [mem_rangeList] at hmem
    omega

theorem Region.nodup_rowMajor (r : Region) : r.rowMajor.Nodup := by
  refine List.nodup_flatMap.2 ⟨fun y _ ↦ ?_, ?_⟩
  · exact (nodup_rangeList _ _).map fun _ _ h ↦ congrArg Prod.fst h
  · refine (nodup_rangeList _ _).imp fun {y y'} hne ↦ ?_
    rintro ⟨px, py⟩ h h'
    obtain ⟨_, -, he⟩ := List.mem_map.1 h
    obtain ⟨_, -, he'⟩ := List.mem_map.1 h'
    exact hne ((congrArg Prod.snd he).trans (congrArg Prod.snd he').symm)

theorem Region.nodup_columnMajor (r : Region) : r.columnMajor.Nodup := by
  refine List.nodup_flatMap.2 ⟨fun x _ ↦ ?_, ?_⟩
  · exact (nodup_rangeList _ _).map fun _ _ h ↦ congrArg Prod.snd h
  · refine (nodup_rangeList _ _).imp fun {x x'} hne ↦ ?_
    rintro ⟨px, py⟩ h h'
    obtain ⟨_, -, he⟩ := List.mem_map.1 h
    obtain ⟨_, -, he'⟩ := List.mem_map.1 h'
    exact hne ((congrArg Prod.fst he).trans (congrArg Prod.fst he').symm)

/-- Pixels without repetition have at most one fragment at each pixel. -/
theorem filter_isAt_filterMap {l : List (Int × Int)} (hl : l.Nodup)
    {F : Int × Int → Option Fragment} (hF : ∀ p f, F p = some f → f.x = p.1 ∧ f.y = p.2)
    (x y : Int) :
    (l.filterMap F).filter (Fragment.isAt x y) =
      if (x, y) ∈ l then (F (x, y)).toList else [] := by
  induction l with
  | nil => rfl
  | cons p l ih =>
    obtain ⟨hp, hl⟩ := List.nodup_cons.1 hl
    have hhead : (F p).toList.filter (Fragment.isAt x y) =
        if (x, y) = p then (F (x, y)).toList else [] := by
      cases hFp : F p with
      | none =>
        split
        · next he => rw [he, hFp]; rfl
        · rfl
      | some f =>
        obtain ⟨hx, hy⟩ := hF p f hFp
        split
        · next he =>
          rw [he, hFp]
          refine List.filter_cons_of_pos (Fragment.isAt_eq_true.2 ?_)
          rw [hx, hy, ← he]
          exact ⟨rfl, rfl⟩
        · next he =>
          refine List.filter_cons_of_neg fun hat ↦ he ?_
          rw [Fragment.isAt_eq_true, hx, hy] at hat
          exact Prod.ext hat.1.symm hat.2.symm
    have hcons : (p :: l).filterMap F = (F p).toList ++ l.filterMap F := by
      rw [List.filterMap_cons]
      cases F p <;> rfl
    rw [hcons, List.filter_append, hhead, ih hl]
    by_cases he : (x, y) = p
    · rw [if_pos he, if_neg (he ▸ hp), List.append_nil, if_pos (by simp [he])]
    · rw [if_neg he, List.nil_append]
      simp only [List.mem_cons, he, false_or]

end

/-! ## Rectangles -/

/-- The fragment of a rectangle at `(x, y)` on the pixel `(px, py)`. -/
def rectFragment (st : RenderState) (paint : Paint) (m : Rdram) (x y px py : Int) : Fragment where
  x := px
  y := py
  color := paint.colorAtTexel st m (px - x) (py - y)
  punchThrough := paint.punchThrough
  depth := none

/-- The fragments of a rectangle. -/
def rectFragments (st : RenderState) (m : Rdram) (source : TexelSource) (x y : Int) :
    List Fragment :=
  match Paint.choose st (some source) with
  | some paint =>
    (rectRegion st.scissor source.texture x y).rowMajor.filterMap fun p ↦
      some (rectFragment st paint m x y p.1 p.2)
  | none => []

section

variable {fb : Framebuffer} {st : RenderState} {m m₁ : Rdram} {source : TexelSource} {x y : Int}

/-- Inside a rectangle the texels of its texture are shown. -/
theorem rectFragment_congr {paint : Paint} (hchoose : Paint.choose st (some source) = some paint)
    (h : Frame (fun i ↦ ¬ paint.Owns i) m m₁) {px py : Int}
    (hp : (rectRegion st.scissor source.texture x y).Contains px py) :
    rectFragment st paint m₁ x y px py = rectFragment st paint m x y px py := by
  obtain ⟨hin, -⟩ := contains_rectRegion.1 hp
  rw [rectFragment, rectFragment, Paint.colorAtTexel_congr h]
  rintro source' rfl
  obtain rfl := Option.some.inj (Paint.source_of_choose hchoose).1
  constructor <;> omega

theorem drawRect_eq_writeAll (hsource : source.Apart fb st.depth) (m : Rdram) (x y : Int) :
    drawRect fb st m source x y = writeAll fb st (rectFragments st m source x y) m := by
  rw [drawRect, rectFragments]
  cases hchoose : Paint.choose st (some source) with
  | none => rfl
  | some paint =>
    have hs : ∀ s, some source = some s → s.Apart fb st.depth := fun _ he ↦
      Option.some.inj he ▸ hsource
    refine Region.foldRows_eq_writeAll (s := fun i ↦ ¬ paint.Owns i)
      (F := fun m px py ↦ some (rectFragment st paint m x y px py))
      (Fragment.frame_write_paint hchoose hs) fun m₁ hm₁ px py hp ↦ ?_
    rw [rectFragment_congr hchoose hm₁ hp]

/-- The fragments of a rectangle depend on its texture only. -/
theorem rectFragments_congr (h : Frame (fun i ↦ ¬ source.Owns i) m m₁) :
    rectFragments st m₁ source x y = rectFragments st m source x y := by
  rw [rectFragments, rectFragments]
  cases hchoose : Paint.choose st (some source) with
  | none => rfl
  | some paint =>
    have hpaint : Frame (fun i ↦ ¬ paint.Owns i) m m₁ :=
      Paint.frame_of_choose hchoose (h.mono fun i hi _ he ↦ Option.some.inj he ▸ hi)
    refine List.filterMap_congr fun p hp ↦ ?_
    rw [rectFragment_congr hchoose hpaint (Region.mem_rowMajor.1 hp)]

/-- A rectangle has one fragment on each of its pixels in the scissor. -/
theorem filter_isAt_rectFragments {paint : Paint}
    (hchoose : Paint.choose st (some source) = some paint) (px py : Int)
    [Decidable ((rectRegion st.scissor source.texture x y).Contains px py)] :
    (rectFragments st m source x y).filter (Fragment.isAt px py) =
      if (rectRegion st.scissor source.texture x y).Contains px py then
        [rectFragment st paint m x y px py]
      else [] := by
  rw [rectFragments, hchoose]
  refine (filter_isAt_filterMap (Region.nodup_rowMajor _) (fun p f hf ↦ ?_) px py).trans ?_
  · cases hf
    exact ⟨rfl, rfl⟩
  · simp only [Region.mem_rowMajor]
    rfl

end

/-! ## Tile grids -/

/-- The texture of a tile. -/
def tileSource (addr : UInt32) (size : UInt8) : TexelSource :=
  ⟨.rgba16, .packed addr size.toUInt32 size.toUInt32⟩

/-- The fragments of a tile grid, tile by tile. -/
def tileFragments (fb : Framebuffer) (st : RenderState) (m : Rdram) (addr : UInt32)
    (size spacing : UInt8) (offset : UInt16) : List Fragment :=
  if size = 0 then []
  else
    let period : Int := size.toNat + spacing.toNat
    let first : Int := offset.toNat % period - period
    (rangeList (stepCount 0 fb.height.toNat period) 0).flatMap fun row ↦
      (rangeList (stepCount first fb.width.toNat period) 0).flatMap fun column ↦
        rectFragments st m (tileSource addr size) (first + column * period) (row * period)

theorem drawTiles_eq_writeAll {fb : Framebuffer} {st : RenderState} {addr : UInt32}
    {size : UInt8} (hsource : (tileSource addr size).Apart fb st.depth) (m : Rdram)
    (spacing : UInt8) (offset : UInt16) :
    drawTiles fb st m addr size spacing offset =
      writeAll fb st (tileFragments fb st m addr size spacing offset) m := by
  rw [drawTiles, tileFragments]
  split
  · rfl
  · simp only [foldRange_eq_foldl, writeAll, List.foldl_flatMap]
    refine Frame.foldl_congr (s := fun i ↦ ¬ (tileSource addr size).Owns i)
      (fun m₁ row _ ↦ Frame.foldl (fun m₂ column _ ↦ hsource.frame_writeAll _ m₂) m₁)
      fun m₁ hm₁ row _ ↦ ?_
    · refine Frame.foldl_congr (s := fun i ↦ ¬ (tileSource addr size).Owns i)
        (fun m₂ column _ ↦ hsource.frame_writeAll _ m₂) fun m₂ hm₂ column _ ↦ ?_
      refine (drawRect_eq_writeAll hsource m₂ _ _).trans ?_
      rw [rectFragments_congr (hm₁.trans hm₂)]
      rfl

/-! ## Gradients -/

/-- The fragments of a gradient, column by column. -/
def gradientFragments (fb : Framebuffer) (st : RenderState) (left right : UInt16) :
    List Fragment :=
  st.scissor.region.columnMajor.filterMap fun p ↦
    some {
      x := p.1
      y := p.2
      color := rampColor (Color.ofPacked left) (Color.ofPacked right) (coordWord p.1) fb.width
      punchThrough := false
      depth := none }

/-- A fragment that is drawn whatever the blend mode stores its color. -/
theorem Fragment.write_opaque {fb : Framebuffer} {st : RenderState} {x y : Int}
    (hdrawable : fb.contains x y = true) (hunclipped : st.scissor.contains x y = true) (m : Rdram)
    (color : UInt16) :
    Fragment.write fb { st with blend := .off } m ⟨x, y, color, false, none⟩ =
      (Memory.write16 m (fb.addressOf x y) color).memory := by
  by_cases hf : m.Fits (fb.addressOf x y) 2
  · have hv : Visible fb { st with blend := .off } m x y := ⟨hdrawable, hunclipped, hf⟩
    show (Fragment.putPixel fb { st with blend := .off } m ⟨x, y, color, false, none⟩).2 = _
    rw [putPixel_of_visible hv]
    rfl
  · have hv : ¬ Visible fb { st with blend := .off } m x y := fun hv ↦ hf hv.fits
    rw [write_of_not_visible (f := ⟨x, y, color, false, none⟩) hv, write16_eq_of_not_fits hf]

theorem drawGradient_eq_writeAll {fb : Framebuffer} {st : RenderState}
    (hscissor : st.scissor.Inside fb) (m : Rdram) (left right : UInt16) :
    drawGradient fb st m left right =
      writeAll fb { st with blend := .off } (gradientFragments fb st left right) m := by
  rw [drawGradient, Region.foldColumns_eq_foldl, writeAll, gradientFragments,
    List.foldl_filterMap]
  refine List.foldl_ext _ _ m fun m p hp ↦ ?_
  have hin : st.scissor.region.Contains p.1 p.2 := Region.mem_columnMajor.1 hp
  have hunclipped : st.scissor.contains p.1 p.2 = true := by
    rw [Scissor.contains_eq_true]
    exact hin
  simp only
  rw [Fragment.write_opaque (hscissor _ _ hunclipped) hunclipped]

/-! ## Triangles -/

/-- The fragments of a triangle. -/
def triangleFragments (fb : Framebuffer) (st : RenderState) (m : Rdram) (v : Corners Vertex)
    (source? : Option TexelSource) (projection : Projection) (carriesDepth : Bool) :
    List Fragment :=
  match Paint.choose st source?, Oriented.ofVertices v with
  | some paint, some tri =>
    (tri.region fb).rowMajor.filterMap fun p ↦
      tri.fragment st paint projection (carriesDepth && st.testsDepth) m p.1 p.2
  | _, _ => []

theorem drawTriangle_eq_writeAll {fb : Framebuffer} {st : RenderState}
    {source? : Option TexelSource}
    (hsource : ∀ source, source? = some source → source.Apart fb st.depth) (m : Rdram)
    (v : Corners Vertex) (projection : Projection) (carriesDepth : Bool) :
    drawTriangle fb st m v source? projection carriesDepth =
      writeAll fb st (triangleFragments fb st m v source? projection carriesDepth) m := by
  rw [drawTriangle, triangleFragments]
  cases hchoose : Paint.choose st source? with
  | none => rfl
  | some paint =>
    cases Oriented.ofVertices v with
    | none => rfl
    | some tri =>
      refine Region.foldRows_eq_writeAll (s := fun i ↦ ¬ paint.Owns i)
        (F := tri.fragment st paint projection (carriesDepth && st.testsDepth))
        (Fragment.frame_write_paint hchoose hsource) fun m₁ hm₁ x y _ ↦ ?_
      rw [Oriented.fragment, Oriented.fragment,
        Paint.colorAt_congr (Paint.proper_of_choose hchoose) hm₁]

/-- The fragments of a triangle depend on its texture only. -/
theorem triangleFragments_congr {fb : Framebuffer} {st : RenderState} {m m₁ : Rdram}
    {source? : Option TexelSource}
    (h : Frame (fun i ↦ ∀ source, source? = some source → ¬ source.Owns i) m m₁)
    (v : Corners Vertex) (projection : Projection) (carriesDepth : Bool) :
    triangleFragments fb st m₁ v source? projection carriesDepth =
      triangleFragments fb st m v source? projection carriesDepth := by
  rw [triangleFragments, triangleFragments]
  cases hchoose : Paint.choose st source? with
  | none => rfl
  | some paint =>
    cases Oriented.ofVertices v with
    | none => rfl
    | some tri =>
      refine List.filterMap_congr fun p _ ↦ ?_
      rw [Oriented.fragment, Oriented.fragment,
        Paint.colorAt_congr (Paint.proper_of_choose hchoose) (Paint.frame_of_choose hchoose h)]

theorem Oriented.fragment_eq_some {tri : Oriented} {st : RenderState} {paint : Paint}
    {projection : Projection} {tested : Bool} {m : Rdram} {x y : Int} {f : Fragment}
    (h : tri.fragment st paint projection tested m x y = some f) : f.x = x ∧ f.y = y := by
  rw [fragment] at h
  split at h
  · cases h
    exact ⟨rfl, rfl⟩
  · cases h

/-! ## Commands -/

namespace Command

/-- The texture of a draw. -/
def source? : Command → Option TexelSource
  | .tiles addr size _ _ => some (tileSource addr size)
  | .rect r => some r.source
  | .texTriangle format _ texture _ => some ⟨format.texel, texture⟩
  | .texTriangleDepth _ texture _ => some ⟨.rgba16, texture⟩
  | _ => none

/-- The state in which the fragments of a draw are written: a gradient does not blend. -/
def drawState (c : Command) (st : RenderState) : RenderState :=
  match c with
  | .gradient .. => { st with blend := .off }
  | _ => st

/-- The fragments of a draw, in the order in which they are written. -/
def fragments (fb : Framebuffer) (c : Command) (st : RenderState) (m : Rdram) : List Fragment :=
  match c with
  | .gradient left right => gradientFragments fb st left right
  | .tiles addr size spacing offset => tileFragments fb st m addr size spacing offset
  | .solidTriangle v => triangleFragments fb st m v none .affine false
  | .solidTriangleDepth v => triangleFragments fb st m v none .affine true
  | .rect r => rectFragments st m r.source r.x.toInt r.y.toInt
  | .texTriangle format projection texture v =>
    triangleFragments fb st m v (some ⟨format.texel, texture⟩) projection false
  | .texTriangleDepth projection texture v =>
    triangleFragments fb st m v (some ⟨.rgba16, texture⟩) projection true
  | _ => []

/-- **Drawing is writing the fragments of the draw**, if its texture is apart from the frame. -/
theorem draw_eq_writeAll {fb : Framebuffer} {c : Command} {st : RenderState}
    (hpaints : c.paints = true) (hscissor : st.scissor.Inside fb)
    (hsource : ∀ source, c.source? = some source → source.Apart fb st.depth) (m : Rdram) :
    c.draw fb st m = writeAll fb (c.drawState st) (c.fragments fb st m) m := by
  cases c with
  | gradient left right => exact drawGradient_eq_writeAll hscissor m left right
  | tiles addr size spacing offset =>
    exact drawTiles_eq_writeAll (hsource _ rfl) m spacing offset
  | solidTriangle v => exact drawTriangle_eq_writeAll hsource m v _ _
  | solidTriangleDepth v => exact drawTriangle_eq_writeAll hsource m v _ _
  | rect r => exact drawRect_eq_writeAll (hsource _ rfl) m _ _
  | texTriangle _ _ _ v => exact drawTriangle_eq_writeAll hsource m v _ _
  | texTriangleDepth _ _ v => exact drawTriangle_eq_writeAll hsource m v _ _
  | _ => exact absurd hpaints (by simp [paints])

end Command

end DisplayRaster
