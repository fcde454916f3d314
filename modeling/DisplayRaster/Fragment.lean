import DisplayRaster.RenderState
import DisplayRaster.Texture.Basic

/-!
# Fragments

A draw is a sequence of fragments: pixels with a color and possibly a depth.  `Paint.choose` decides
where the colors of a draw come from.  `Fragment.write` is the one way a fragment reaches memory: it
is tested against the depth buffer if it carries a depth, blended into the framebuffer by
`Fragment.putPixel`, and leaves its depth behind iff its color was written.

Memory that cannot be read counts as a transparent black pixel or as the farthest depth, and a pixel
that cannot be written is dropped.
-/

set_option autoImplicit false

namespace DisplayRaster

/-! ## Color sources -/

/-- Where the colors of a draw come from. -/
inductive Paint where
  /-- One color, which is drawn whatever its alpha bit. -/
  | flat (color : UInt16)
  /-- Texels, of which transparent ones are left out while blending is off. -/
  | texels (source : TexelSource)
  deriving DecidableEq

/-- The color source of a draw with the texture `source?`.  There is none, and the draw does
nothing, if it needs an empty texture or an indexed one before a lookup table has been set. -/
def Paint.choose (st : RenderState) (source? : Option TexelSource) : Option Paint :=
  match st.combine with
  | .primitive => some (.flat st.primColor)
  | .environment => some (.flat st.envColor)
  | .texture =>
    match source? with
    | none => some (.flat st.primColor)
    | some source =>
      if source.texture.isEmpty then none
      else if source.format.isIndexed && st.table.isNone then none
      else some (.texels source)

/-- Whether the transparent colors of a paint are left out. -/
def Paint.punchThrough : Paint → Bool
  | .flat _ => false
  | .texels _ => true

/-! ## Fragments -/

/-- One pixel of a draw. -/
structure Fragment where
  x : Int
  y : Int
  color : UInt16
  /-- Whether the color is left out if it is transparent and blending is off. -/
  punchThrough : Bool
  /-- The depth, for draws that are tested. -/
  depth : Option UInt16

namespace Fragment

variable {μ : Type} [Memory μ]

/-- The color a fragment leaves in the framebuffer, or none if it leaves none: it lies outside the
framebuffer or the scissor, is punched through, or does not survive blending. -/
@[specialize]
def blended (fb : Framebuffer) (st : RenderState) (m : μ) (f : Fragment) : Option UInt16 :=
  if !(fb.contains f.x f.y && st.scissor.contains f.x f.y) then none
  else if f.punchThrough && st.blend = .off && f.color &&& 1 = 0 then none
  else st.blend.blend (Memory.halfOr 0 m (fb.addressOf f.x f.y)) f.color

/-- Draw the color of a fragment, and tell whether a pixel was written. -/
@[specialize]
def putPixel (fb : Framebuffer) (st : RenderState) (m : μ) (f : Fragment) : Bool × μ :=
  match f.blended fb st m with
  | none => (false, m)
  | some color =>
    match Memory.write16 m (fb.addressOf f.x f.y) color with
    | ⟨m, none⟩ => (true, m)
    | ⟨m, some _⟩ => (false, m)

/-- Draw a fragment: test its depth, put its color into the framebuffer, and store its depth if that
wrote a pixel. -/
@[specialize]
def write (fb : Framebuffer) (st : RenderState) (m : μ) (f : Fragment) : μ :=
  match f.depth with
  | none => (f.putPixel fb st m).2
  | some depth =>
    if st.depth.passes m f.x f.y depth then
      match f.putPixel fb st m with
      | (true, m) => st.depth.store m f.x f.y depth
      | (false, m) => m
    else m

end Fragment

end DisplayRaster
