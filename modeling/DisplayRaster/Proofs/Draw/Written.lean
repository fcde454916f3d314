import DisplayRaster.Proofs.Draw.Fragments

/-!
# Fragments as they are written

A draw makes each fragment from the memory that the fragments before it have left.  That matters
when it shows a texture that it is drawing over, which `Command.fragments` leaves out.
`Command.written` lists the fragments of a draw as they really come, and drawing is writing this
list whatever the texture is (`Command.draw_eq_writeAll_written`).
-/

set_option autoImplicit false

namespace DisplayRaster

/-! ## Fragments along a list -/

section

variable {α : Type} {fb : Framebuffer} {st : RenderState} {W : Rdram → α → List Fragment}

/-- The fragments for the entries of a list, where `W` gives those of an entry in the memory that
the entries before it have left. -/
def writtenAlong (fb : Framebuffer) (st : RenderState) (W : Rdram → α → List Fragment) :
    List α → Rdram → List Fragment
  | [], _ => []
  | a :: l, m => W m a ++ writtenAlong fb st W l (writeAll fb st (W m a) m)

/-- Steps that write fragments, one after another. -/
theorem foldl_eq_writeAll_writtenAlong {f : Rdram → α → Rdram}
    (h : ∀ m a, f m a = writeAll fb st (W m a) m) (l : List α) (m : Rdram) :
    l.foldl f m = writeAll fb st (writtenAlong fb st W l m) m := by
  induction l generalizing m with
  | nil => rfl
  | cons a l ih => rw [List.foldl_cons, writtenAlong, writeAll_append, h, ih]

theorem exists_of_mem_writtenAlong {f : Fragment} {l : List α} {m : Rdram}
    (hf : f ∈ writtenAlong fb st W l m) : ∃ m₁, ∃ a ∈ l, f ∈ W m₁ a := by
  induction l generalizing m with
  | nil => cases hf
  | cons a l ih =>
    rcases List.mem_append.1 hf with hf | hf
    · exact ⟨m, a, by simp, hf⟩
    · obtain ⟨m₁, b, hb, hf⟩ := ih hf
      exact ⟨m₁, b, by simp [hb], hf⟩

end

/-! ## Draws -/

section

variable (fb : Framebuffer) (st : RenderState) (m : Rdram)

/-- The fragments of a triangle as they are written. -/
def triangleWritten (v : Corners Vertex) (source? : Option TexelSource) (projection : Projection)
    (carriesDepth : Bool) : List Fragment :=
  match Paint.choose st source?, Oriented.ofVertices v with
  | some paint, some tri =>
    writtenAlong fb st (fun m p ↦
      (tri.fragment st paint projection (carriesDepth && st.testsDepth) m p.1 p.2).toList)
      (tri.region fb).rowMajor m
  | _, _ => []

/-- The fragments of a rectangle as they are written. -/
def rectWritten (source : TexelSource) (x y : Int) : List Fragment :=
  match Paint.choose st (some source) with
  | some paint =>
    writtenAlong fb st (fun m p ↦ [rectFragment st paint m x y p.1 p.2])
      (rectRegion st.scissor source.texture x y).rowMajor m
  | none => []

/-- The fragments of a tile grid as they are written. -/
def tilesWritten (addr : UInt32) (size spacing : UInt8) (offset : UInt16) : List Fragment :=
  if size = 0 then []
  else
    let period : Int := size.toNat + spacing.toNat
    let first : Int := offset.toNat % period - period
    writtenAlong fb st (fun m row ↦
      writtenAlong fb st (fun m column ↦
        rectWritten fb st m (tileSource addr size) (first + column * period) (row * period))
        (rangeList (stepCount first fb.width.toNat period) 0) m)
      (rangeList (stepCount 0 fb.height.toNat period) 0) m

theorem drawTriangle_eq_writeAll_written (v : Corners Vertex) (source? : Option TexelSource)
    (projection : Projection) (carriesDepth : Bool) :
    drawTriangle fb st m v source? projection carriesDepth =
      writeAll fb st (triangleWritten fb st m v source? projection carriesDepth) m := by
  rw [drawTriangle, triangleWritten]
  cases Paint.choose st source? with
  | none => rfl
  | some paint =>
    cases Oriented.ofVertices v with
    | none => rfl
    | some tri =>
      refine (Region.foldRows_eq_foldl _ _ m).trans ?_
      refine foldl_eq_writeAll_writtenAlong (fun m p ↦ ?_) _ m
      cases tri.fragment st paint projection (carriesDepth && st.testsDepth) m p.1 p.2 <;> rfl

theorem drawRect_eq_writeAll_written (source : TexelSource) (x y : Int) :
    drawRect fb st m source x y = writeAll fb st (rectWritten fb st m source x y) m := by
  rw [drawRect, rectWritten]
  cases Paint.choose st (some source) with
  | none => rfl
  | some paint =>
    refine (Region.foldRows_eq_foldl _ _ m).trans ?_
    exact foldl_eq_writeAll_writtenAlong
      (W := fun m (p : Int × Int) ↦ [rectFragment st paint m x y p.1 p.2]) (fun m p ↦ rfl) _ m

theorem drawTiles_eq_writeAll_written (addr : UInt32) (size spacing : UInt8) (offset : UInt16) :
    drawTiles fb st m addr size spacing offset =
      writeAll fb st (tilesWritten fb st m addr size spacing offset) m := by
  rw [drawTiles, tilesWritten]
  split
  · rfl
  · simp only [foldRange_eq_foldl]
    refine foldl_eq_writeAll_writtenAlong (fun m row ↦ ?_) _ m
    exact foldl_eq_writeAll_writtenAlong (fun m column ↦ drawRect_eq_writeAll_written fb st m _ _ _)
      _ m

end

/-! ## Commands -/

namespace Command

/-- The fragments of a draw as they are written.  A gradient has none: it stores its colors as they
are. -/
def written (fb : Framebuffer) (c : Command) (st : RenderState) (m : Rdram) : List Fragment :=
  match c with
  | .tiles addr size spacing offset => tilesWritten fb st m addr size spacing offset
  | .solidTriangle v => triangleWritten fb st m v none .affine false
  | .solidTriangleDepth v => triangleWritten fb st m v none .affine true
  | .rect r => rectWritten fb st m r.source r.x.toInt r.y.toInt
  | .texTriangle format projection texture v =>
    triangleWritten fb st m v (some ⟨format.texel, texture⟩) projection false
  | .texTriangleDepth projection texture v =>
    triangleWritten fb st m v (some ⟨.rgba16, texture⟩) projection true
  | _ => []

/-- **Drawing is writing the fragments of the draw**, apart from gradients and cleared depths. -/
theorem draw_eq_writeAll_written {c : Command} (hgradient : ∀ left right, c ≠ .gradient left right)
    (hclear : ∀ value, c ≠ .clearDepth value) (fb : Framebuffer) (st : RenderState) (m : Rdram) :
    c.draw fb st m = writeAll fb st (c.written fb st m) m := by
  cases c with
  | gradient left right => exact absurd rfl (hgradient left right)
  | clearDepth value => exact absurd rfl (hclear value)
  | tiles addr size spacing offset => exact drawTiles_eq_writeAll_written fb st m _ _ _ _
  | rect r => exact drawRect_eq_writeAll_written fb st m _ _ _
  | solidTriangle v => exact drawTriangle_eq_writeAll_written fb st m v _ _ _
  | solidTriangleDepth v => exact drawTriangle_eq_writeAll_written fb st m v _ _ _
  | texTriangle _ _ _ v => exact drawTriangle_eq_writeAll_written fb st m v _ _ _
  | texTriangleDepth _ _ v => exact drawTriangle_eq_writeAll_written fb st m v _ _ _
  | _ => rfl

/-- Whether a draw carries depth. -/
def carriesDepth : Command → Bool
  | .solidTriangleDepth _ | .texTriangleDepth .. => true
  | _ => false

end Command

theorem depth_of_mem_triangleWritten {fb : Framebuffer} {st : RenderState} {m : Rdram}
    {v : Corners Vertex} {source? : Option TexelSource} {projection : Projection}
    {carriesDepth : Bool} {f : Fragment}
    (hf : f ∈ triangleWritten fb st m v source? projection carriesDepth)
    (h : (carriesDepth && st.testsDepth) = false) : f.depth = none := by
  rw [triangleWritten, h] at hf
  split at hf
  · obtain ⟨m₁, p, -, hf⟩ := exists_of_mem_writtenAlong hf
    rw [Option.mem_toList, Oriented.fragment] at hf
    split at hf
    · cases hf
      rfl
    · cases hf
  · cases hf

theorem depth_of_mem_rectWritten {fb : Framebuffer} {st : RenderState} {m : Rdram}
    {source : TexelSource} {x y : Int} {f : Fragment} (hf : f ∈ rectWritten fb st m source x y) :
    f.depth = none := by
  rw [rectWritten] at hf
  split at hf
  · obtain ⟨m₁, p, -, hf⟩ := exists_of_mem_writtenAlong hf
    rw [List.mem_singleton.1 hf]
    rfl
  · cases hf

/-- **The fragments of a draw have no depth** if the draw carries none or the depth test is off. -/
theorem Command.depth_of_mem_written {fb : Framebuffer} {c : Command} {st : RenderState} {m : Rdram}
    {f : Fragment} (hf : f ∈ c.written fb st m)
    (h : c.carriesDepth = false ∨ st.testsDepth = false) : f.depth = none := by
  cases c with
  | tiles addr size spacing offset =>
    rw [written, tilesWritten] at hf
    split at hf
    · cases hf
    · obtain ⟨m₁, row, -, hf⟩ := exists_of_mem_writtenAlong hf
      obtain ⟨m₂, column, -, hf⟩ := exists_of_mem_writtenAlong hf
      exact depth_of_mem_rectWritten hf
  | rect r => exact depth_of_mem_rectWritten hf
  | solidTriangle v => exact depth_of_mem_triangleWritten hf rfl
  | texTriangle format projection texture v => exact depth_of_mem_triangleWritten hf rfl
  | solidTriangleDepth v =>
    exact depth_of_mem_triangleWritten hf (h.resolve_left (by simp [carriesDepth]))
  | texTriangleDepth projection texture v =>
    exact depth_of_mem_triangleWritten hf (h.resolve_left (by simp [carriesDepth]))
  | _ => cases hf

end DisplayRaster
