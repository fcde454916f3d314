import DisplayRaster.Command
import DisplayRaster.Proofs.Checked.Sampling
import DisplayRaster.Proofs.Triangle.Range

/-!
# Draws with checked operations

The draws written once more, over the checked sampler and with their own divisions and clamps
checked as well.  `Command.perform?_eq` says that no check of a command ever fails, on a framebuffer
whose sides are signed words: a pixel that a triangle covers has a texture coordinate with a
positive denominator, periods and spans are not zero, and the sides that scissors are clamped to are
not negative.
-/

set_option autoImplicit false

namespace DisplayRaster

variable {μ : Type} [Memory μ]

/-! ## Steps over a list -/

/-- Steps none of which fails. -/
theorem foldlM_eq_some {α σ : Type} {f? : σ → α → Option σ} {f : σ → α → σ}
    (h : ∀ s a, f? s a = some (f s a)) (l : List α) (s : σ) :
    l.foldlM f? s = some (l.foldl f s) := by
  induction l generalizing s with
  | nil => rfl
  | cons a l ih =>
    rw [List.foldlM_cons, h, List.foldl_cons]
    exact ih (f s a)

/-- Every pixel of a region given to `f?`, row by row, until it fails. -/
def Region.foldRows? {σ : Type} (r : Region) (f? : σ → Int → Int → Option σ) (s : σ) : Option σ :=
  r.rowMajor.foldlM (fun s p ↦ f? s p.1 p.2) s

/-- Every pixel of a region given to `f?`, column by column, until it fails. -/
def Region.foldColumns? {σ : Type} (r : Region) (f? : σ → Int → Int → Option σ) (s : σ) :
    Option σ :=
  r.columnMajor.foldlM (fun s p ↦ f? s p.1 p.2) s

/-- `count` consecutive integers from `start`, each given to `f?` in turn, until it fails. -/
def foldRange? {σ : Type} (f? : σ → Int → Option σ) (count : Nat) (start : Int) (s : σ) :
    Option σ :=
  (rangeList count start).foldlM f? s

theorem Region.foldRows?_eq {σ : Type} {f? : σ → Int → Int → Option σ} {f : σ → Int → Int → σ}
    (h : ∀ s x y, f? s x y = some (f s x y)) (r : Region) (s : σ) :
    r.foldRows? f? s = some (r.foldRows f s) := by
  rw [foldRows?, foldRows_eq_foldl]
  exact foldlM_eq_some (fun s p ↦ h s p.1 p.2) r.rowMajor s

theorem Region.foldColumns?_eq {σ : Type} {f? : σ → Int → Int → Option σ} {f : σ → Int → Int → σ}
    (h : ∀ s x y, f? s x y = some (f s x y)) (r : Region) (s : σ) :
    r.foldColumns? f? s = some (r.foldColumns f s) := by
  rw [foldColumns?, foldColumns_eq_foldl]
  exact foldlM_eq_some (fun s p ↦ h s p.1 p.2) r.columnMajor s

theorem foldRange?_eq {σ : Type} {f? : σ → Int → Option σ} {f : σ → Int → σ}
    (h : ∀ s i, f? s i = some (f s i)) (count : Nat) (start : Int) (s : σ) :
    foldRange? f? count start s = some (foldRange f count start s) := by
  rw [foldRange?, foldRange_eq_foldl, foldlM_eq_some h]

/-! ## Triangles -/

/-- The position of a vertex. -/
def Vertex.point? (v : Vertex) : Option Point := do
  return ⟨(← clamp? (-guardBand) guardBand v.x.toInt) * 2,
    (← clamp? (-guardBand) guardBand v.y.toInt) * 2⟩

namespace Oriented

/-- A triangle put into positive order; none if it has no area. -/
def ofVertices? (v : Corners Vertex) : Option (Option Oriented) := do
  let points : Corners Point := ⟨← v.a.point?, ← v.b.point?, ← v.c.point?⟩
  return if signedArea points = 0 then none else ofVertices v

/-- The interpolated depth, rounded down. -/
def depthAt? (tri : Oriented) (w : Corners Int) : Option UInt16 := do
  let sum := TextureCoord.weightedSum w (tri.vertices.map fun v ↦ (v.z.toNat : Int))
  let depth ← clamp? 0 0xFFFF (← quotient? sum tri.area)
  return UInt16.ofNat depth.toNat

end Oriented

/-- The color of a paint at a texture coordinate. -/
def Paint.colorAt? (paint : Paint) (st : RenderState) (m : μ)
    (coord? : Unit → Option TextureCoord) : Option UInt16 :=
  match paint with
  | .flat color => some color
  | .texels source => do sample? st m source (← coord? ())

/-- The fragment of a triangle at a pixel, if it covers the pixel. -/
def Oriented.fragment? (tri : Oriented) (st : RenderState) (paint : Paint)
    (projection : Projection) (tested : Bool) (m : μ) (x y : Int) : Option (Option Fragment) :=
  let w := tri.weights x y
  if coversValues tri.points w then do
    let depth ← if tested then (tri.depthAt? w).map some else some none
    let color ← paint.colorAt? st m fun _ ↦
      TextureCoord.ofWeights? projection w tri.vertices tri.area
    return some ⟨x, y, color, paint.punchThrough, depth⟩
  else some none

/-- Draw a triangle, with a texture or without one. -/
def drawTriangle? (fb : Framebuffer) (st : RenderState) (m : μ) (v : Corners Vertex)
    (source? : Option TexelSource) (projection : Projection) (carriesDepth : Bool) : Option μ :=
  match Paint.choose st source? with
  | none => some m
  | some paint =>
    (Oriented.ofVertices? v).bind fun
      | none => some m
      | some tri =>
        (tri.region fb).foldRows? (fun m x y ↦
          (tri.fragment? st paint projection (carriesDepth && st.testsDepth) m x y).map fun
            | some f => f.write fb st m
            | none => m) m

theorem Vertex.point?_eq (v : Vertex) : v.point? = some v.point := by
  have h (n : Int) : clamp? (-guardBand) guardBand n = some (max (-guardBand) (min n guardBand)) :=
    clamp?_eq (by decide) n
  simp only [point?, h, Option.bind_eq_bind, Option.bind_some, Option.pure_def]
  rfl

theorem Oriented.ofVertices?_eq (v : Corners Vertex) :
    ofVertices? v = some (ofVertices v) := by
  simp only [ofVertices?, Vertex.point?_eq, Option.bind_eq_bind, Option.bind_some, Option.pure_def]
  congr 1
  split
  · next harea =>
    have harea : signedArea (v.map Vertex.point) = 0 := harea
    simp [ofVertices, harea]
  · rfl

theorem Oriented.depthAt?_eq (tri : Oriented) (w : Corners Int) :
    tri.depthAt? w = some (tri.depthAt w) := by
  have harea : tri.area ≠ 0 := tri.area_pos.ne'
  simp only [depthAt?, quotient?_eq harea, Option.bind_eq_bind, Option.bind_some, depthAt,
    clamp?_eq (show (0 : Int) ≤ 0xFFFF by decide), Option.pure_def]

/-- A covered pixel has a texture coordinate with a positive denominator. -/
theorem Oriented.colorAt?_eq {tri : Oriented} {x y : Int} (h : tri.covers x y = true)
    (projection : Projection) (paint : Paint) (st : RenderState) (m : μ) :
    (paint.colorAt? st m fun _ ↦
      TextureCoord.ofWeights? projection (tri.weights x y) tri.vertices tri.area) =
    some (paint.colorAt st m fun _ ↦
      TextureCoord.ofWeights projection (tri.weights x y) tri.vertices tri.area) := by
  cases paint with
  | flat color => rfl
  | texels source =>
    rw [Paint.colorAt?, TextureCoord.ofWeights?_eq]
    exact sample?_eq st m source (bounded_coordAt h projection).den_pos

theorem Oriented.fragment?_eq (tri : Oriented) (st : RenderState) (paint : Paint)
    (projection : Projection) (tested : Bool) (m : μ) (x y : Int) :
    tri.fragment? st paint projection tested m x y =
      some (tri.fragment st paint projection tested m x y) := by
  rw [fragment?, fragment]
  simp only
  split
  · next hcovers =>
    rw [colorAt?_eq hcovers]
    cases tested with
    | false => rfl
    | true => simp only [depthAt?_eq]; rfl
  · rfl

theorem drawTriangle?_eq (fb : Framebuffer) (st : RenderState) (m : μ) (v : Corners Vertex)
    (source? : Option TexelSource) (projection : Projection) (carriesDepth : Bool) :
    drawTriangle? fb st m v source? projection carriesDepth =
      some (drawTriangle fb st m v source? projection carriesDepth) := by
  rw [drawTriangle?, drawTriangle, Oriented.ofVertices?_eq]
  cases Paint.choose st source? with
  | none => rfl
  | some paint =>
    cases Oriented.ofVertices v with
    | none => rfl
    | some tri =>
      have hstep (m : μ) (x y : Int) :
          (tri.fragment? st paint projection (carriesDepth && st.testsDepth) m x y).map (fun
            | some f => f.write fb st m
            | none => m) =
          some (match tri.fragment st paint projection (carriesDepth && st.testsDepth) m x y with
            | some f => f.write fb st m
            | none => m) := by
        rw [Oriented.fragment?_eq, Option.map_some]
      exact Region.foldRows?_eq hstep _ m

/-! ## Rectangles and tile grids -/

/-- The color of a paint at a texel. -/
def Paint.colorAtTexel? (paint : Paint) (st : RenderState) (m : μ) (s t : Int) : Option UInt16 :=
  match paint with
  | .flat color => some color
  | .texels source => texelAt? st m source s.toNat t.toNat

/-- Draw a texture with its first texel at `(x, y)`. -/
def drawRect? (fb : Framebuffer) (st : RenderState) (m : μ) (source : TexelSource) (x y : Int) :
    Option μ :=
  match Paint.choose st (some source) with
  | some paint =>
    (rectRegion st.scissor source.texture x y).foldRows? (fun m px py ↦ do
      let color ← paint.colorAtTexel? st m (px - x) (py - y)
      return Fragment.write fb st m ⟨px, py, color, paint.punchThrough, none⟩) m
  | none => some m

/-- How many steps of `period` from `start` on lie below `limit`. -/
def stepCount? (start limit period : Int) : Option Nat :=
  (quotient? (limit - start + period - 1) period).map Int.toNat

/-- Draw the square texture at `addr` of `size` texels every `size + spacing` pixels in both
directions, shifted right by `offset`. -/
def drawTiles? (fb : Framebuffer) (st : RenderState) (m : μ) (addr : UInt32) (size spacing : UInt8)
    (offset : UInt16) : Option μ :=
  if size = 0 then some m
  else do
    let period : Int := size.toNat + spacing.toNat
    let first : Int := (← remainder? offset.toNat period) - period
    let source : TexelSource := ⟨.rgba16, .packed addr size.toUInt32 size.toUInt32⟩
    let rows ← stepCount? 0 fb.height.toNat period
    let columns ← stepCount? first fb.width.toNat period
    foldRange? (fun m row ↦
      foldRange? (fun m column ↦ drawRect? fb st m source (first + column * period) (row * period))
        columns 0 m) rows 0 m

theorem Paint.colorAtTexel?_eq (paint : Paint) (st : RenderState) (m : μ) (s t : Int) :
    paint.colorAtTexel? st m s t = some (paint.colorAtTexel st m s t) := by
  cases paint with
  | flat color => rfl
  | texels source => exact texelAt?_eq st m source s.toNat t.toNat

theorem drawRect?_eq (fb : Framebuffer) (st : RenderState) (m : μ) (source : TexelSource)
    (x y : Int) : drawRect? fb st m source x y = some (drawRect fb st m source x y) := by
  rw [drawRect?, drawRect]
  cases Paint.choose st (some source) with
  | none => rfl
  | some paint =>
    refine Region.foldRows?_eq (fun m px py ↦ ?_) _ m
    simp only [Paint.colorAtTexel?_eq, Option.bind_eq_bind, Option.bind_some, Option.pure_def]

theorem drawTiles?_eq (fb : Framebuffer) (st : RenderState) (m : μ) (addr : UInt32)
    (size spacing : UInt8) (offset : UInt16) :
    drawTiles? fb st m addr size spacing offset =
      some (drawTiles fb st m addr size spacing offset) := by
  rw [drawTiles?, drawTiles]
  split
  · rfl
  · next hsize =>
    have hperiod : (size.toNat : Int) + spacing.toNat ≠ 0 := by
      have hne : size.toNat ≠ 0 := fun h ↦ hsize (UInt8.toNat_inj.1 h)
      omega
    simp only [remainder?_eq hperiod, stepCount?, quotient?_eq hperiod, Option.bind_eq_bind,
      Option.bind_some, Option.map_some]
    exact foldRange?_eq (fun m row ↦ foldRange?_eq (fun m column ↦
      drawRect?_eq fb st m _ _ _) _ _ m) _ _ m

/-! ## Gradients -/

/-- One channel of a ramp from `c0` at column 0 to `c1` at column `span`. -/
def rampChannel? (c0 c1 : UInt8) (x span : UInt32) : Option UInt8 :=
  if span = 0 then none else some (rampChannel c0 c1 x span)

/-- The color of a gradient in column `x` of `width`. -/
def rampColor? (left right : Color) (x width : UInt32) : Option UInt16 :=
  if width ≤ 1 then some (Color.toPacked { left with a := true })
  else do
    let span := width - 1
    return Color.toPacked
      { r := ← rampChannel? left.r right.r x span
        g := ← rampChannel? left.g right.g x span
        b := ← rampChannel? left.b right.b x span
        a := true }

/-- Paint the scissor with a gradient that spans the framebuffer. -/
def drawGradient? (fb : Framebuffer) (st : RenderState) (m : μ) (left right : UInt16) : Option μ :=
  st.scissor.region.foldColumns? (fun m x y ↦ do
    let color ←
      rampColor? (Color.ofPacked left) (Color.ofPacked right) (coordWord x) fb.width
    return (Memory.write16 m (fb.addressOf x y) color).memory) m

theorem rampColor?_eq (left right : Color) (x width : UInt32) :
    rampColor? left right x width = some (rampColor left right x width) := by
  rw [rampColor?, rampColor]
  split
  · rfl
  · next hwidth =>
    have hspan : width - 1 ≠ 0 := by
      intro h
      have hone : width = 1 := by grind
      exact hwidth (hone ▸ UInt32.le_refl 1)
    simp only [rampChannel?, if_neg hspan, Option.bind_eq_bind, Option.bind_some, Option.pure_def]

theorem drawGradient?_eq (fb : Framebuffer) (st : RenderState) (m : μ) (left right : UInt16) :
    drawGradient? fb st m left right = some (drawGradient fb st m left right) := by
  refine Region.foldColumns?_eq (fun m x y ↦ ?_) _ m
  simp only [rampColor?_eq, Option.bind_eq_bind, Option.bind_some, Option.pure_def]

/-! ## Commands -/

/-- The value between zero and `limit` that is nearest to `value`, for a `limit` that is not
negative. -/
def Scissor.clampTo? (limit value : Int32) : Option Int32 :=
  if 0 ≤ limit then some (clampTo limit value) else none

/-- The rectangle with each corner moved into the framebuffer. -/
def Scissor.clamped? (r : Scissor) (width height : UInt32) : Option Scissor := do
  return ⟨← clampTo? width.toInt32 r.x0, ← clampTo? height.toInt32 r.y0,
    ← clampTo? width.toInt32 r.x1, ← clampTo? height.toInt32 r.y1⟩

theorem Scissor.clamped?_eq {fb : Framebuffer} (h : fb.Signed) (r : Scissor) :
    r.clamped? fb.width fb.height = some (r.clamped fb.width fb.height) := by
  have hle {side : UInt32} (hside : side.toNat < 2 ^ 31) : 0 ≤ side.toInt32 := by
    rw [Int32.le_iff_toInt_le, toInt_toInt32_of_lt hside]
    exact Int.natCast_nonneg _
  simp only [clamped?, clampTo?, if_pos (hle h.width_lt), if_pos (hle h.height_lt),
    Option.bind_eq_bind, Option.bind_some, Option.pure_def, clamped]

namespace Command

/-- The state after a command. -/
def select? (fb : Framebuffer) (c : Command) (st : RenderState) (m : μ) : Option RenderState :=
  match c with
  | .setScissor r => (r.clamped? fb.width fb.height).map fun r ↦ { st with scissor := r }
  | _ => some (c.select fb st m)

/-- The memory after a command in a given state. -/
def draw? (fb : Framebuffer) (c : Command) (st : RenderState) (m : μ) : Option μ :=
  match c with
  | .gradient left right => drawGradient? fb st m left right
  | .tiles addr size spacing offset => drawTiles? fb st m addr size spacing offset
  | .solidTriangle v => drawTriangle? fb st m v none .affine false
  | .solidTriangleDepth v => drawTriangle? fb st m v none .affine true
  | .rect r => drawRect? fb st m r.source r.x.toInt r.y.toInt
  | .texTriangle format projection texture v =>
    drawTriangle? fb st m v (some ⟨format.texel, texture⟩) projection false
  | .texTriangleDepth projection texture v =>
    drawTriangle? fb st m v (some ⟨.rgba16, texture⟩) projection true
  | _ => some (c.draw fb st m)

/-- The state and the memory after a command. -/
def perform? (fb : Framebuffer) (c : Command) (st : RenderState) (m : μ) :
    Option (RenderState × μ) := do
  return (← c.select? fb st m, ← c.draw? fb st m)

theorem select?_eq {fb : Framebuffer} (h : fb.Signed) (c : Command) (st : RenderState) (m : μ) :
    c.select? fb st m = some (c.select fb st m) := by
  cases c with
  | setScissor r => rw [select?, Scissor.clamped?_eq h, Option.map_some]; rfl
  | _ => rfl

theorem draw?_eq (fb : Framebuffer) (c : Command) (st : RenderState) (m : μ) :
    c.draw? fb st m = some (c.draw fb st m) := by
  cases c with
  | gradient left right => exact drawGradient?_eq fb st m left right
  | tiles addr size spacing offset => exact drawTiles?_eq fb st m addr size spacing offset
  | rect r => exact drawRect?_eq fb st m _ _ _
  | solidTriangle v => exact drawTriangle?_eq fb st m v _ _ _
  | solidTriangleDepth v => exact drawTriangle?_eq fb st m v _ _ _
  | texTriangle _ _ _ v => exact drawTriangle?_eq fb st m v _ _ _
  | texTriangleDepth _ _ v => exact drawTriangle?_eq fb st m v _ _ _
  | _ => rfl

/-- **No check of a command fails.** -/
theorem perform?_eq {fb : Framebuffer} (h : fb.Signed) (c : Command) (st : RenderState) (m : μ) :
    c.perform? fb st m = some (c.apply fb st m) := by
  simp only [perform?, select?_eq h, draw?_eq, Option.bind_eq_bind, Option.bind_some,
    Option.pure_def, apply]

end Command

end DisplayRaster
