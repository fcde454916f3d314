import DisplayRaster.Rectangle

/-!
# Tile grids

Copies of one square texture at regular distances, drawn as rectangles from the top of the
framebuffer and from at most one period left of it.
-/

set_option autoImplicit false

namespace DisplayRaster

variable {μ : Type} [Memory μ]

/-- How many steps of `period` from `start` on lie below `limit`. -/
def stepCount (start limit period : Int) : Nat := ((limit - start + period - 1) / period).toNat

/-- Draw the square texture at `addr` of `size` texels every `size + spacing` pixels in both
directions, shifted right by `offset`. -/
@[specialize]
def drawTiles (fb : Framebuffer) (st : RenderState) (m : μ) (addr : UInt32) (size spacing : UInt8)
    (offset : UInt16) : μ :=
  if size = 0 then m
  else
    let period : Int := size.toNat + spacing.toNat
    let first : Int := offset.toNat % period - period
    let source : TexelSource := ⟨.rgba16, .packed addr size.toUInt32 size.toUInt32⟩
    foldRange (fun m row ↦
      foldRange (fun m column ↦ drawRect fb st m source (first + column * period) (row * period))
        (stepCount first fb.width.toNat period) 0 m)
      (stepCount 0 fb.height.toNat period) 0 m

end DisplayRaster
