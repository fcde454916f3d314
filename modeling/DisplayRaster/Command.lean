import DisplayRaster.Gradient
import DisplayRaster.TileGrid
import DisplayRaster.Triangle.Draw

/-!
# Drawing commands

`Command` is everything a stream can ask for: selections, which change the renderer state, and
draws, which change memory.  `Command.apply` is its meaning.  A draw sees the state that the
selections before it have left behind.
-/

set_option autoImplicit false

namespace DisplayRaster

/-- A texture shown texel for pixel at a position. -/
structure Rect where
  format : TexelFormat
  addr : UInt32
  width : UInt32
  height : UInt32
  x : Int32
  y : Int32
  deriving DecidableEq

/-- The texture of a rectangle; its rows follow each other without a gap. -/
def Rect.source (r : Rect) : TexelSource := ⟨r.format, .packed r.addr r.width r.height⟩

/-- One command of a stream. -/
inductive Command where
  /-- The end of the stream. -/
  | finish
  /-- A horizontal gradient over the scissor. -/
  | gradient (left right : UInt16)
  /-- A grid of square tiles. -/
  | tiles (addr : UInt32) (size spacing : UInt8) (offset : UInt16)
  /-- Load `count` entries of the lookup table. -/
  | setTable (addr count : UInt32)
  /-- Select the bank of the lookup table for four-bit textures. -/
  | setBank (bank : UInt8)
  | setAddressMode (s t : AddressMode)
  | setFilter (filter : TextureFilter)
  /-- Switch averaging on or off. -/
  | setBlendSwitch (enabled : Bool)
  | setBlend (mode : BlendMode)
  | setScissor (rect : Scissor)
  | setPrimColor (color : UInt16)
  | setEnvColor (color : UInt16)
  | setCombine (mode : CombineMode)
  /-- Switch the depth test on or off. -/
  | setDepthEnabled (enabled : Bool)
  | setDepthBuffer (buffer : DepthBuffer)
  /-- Fill the depth buffer. -/
  | clearDepth (value : UInt16)
  /-- A triangle in one color. -/
  | solidTriangle (vertices : Corners Vertex)
  /-- A triangle in one color that carries depth. -/
  | solidTriangleDepth (vertices : Corners Vertex)
  | rect (rect : Rect)
  /-- A textured triangle. -/
  | texTriangle (format : TriangleFormat) (projection : Projection) (texture : Texture)
      (vertices : Corners Vertex)
  /-- A triangle with a direct color texture that carries depth. -/
  | texTriangleDepth (projection : Projection) (texture : Texture) (vertices : Corners Vertex)
  deriving DecidableEq

namespace Command

/-- Whether a command puts pixels into the framebuffer. -/
def paints : Command → Bool
  | .gradient .. | .tiles .. | .solidTriangle _ | .solidTriangleDepth _ | .rect _
  | .texTriangle .. | .texTriangleDepth .. => true
  | _ => false

variable {μ : Type} [Memory μ]

/-- The lookup table of `count` halfwords at an address; unreadable ones are zero. -/
@[specialize]
def loadTable (m : μ) (addr count : UInt32) : LookupTable :=
  .load count.toNat fun i ↦ Memory.halfOr 0 m (addr + UInt32.ofNat (2 * i))

/-- The state after a command. -/
@[specialize]
def select (fb : Framebuffer) (c : Command) (st : RenderState) (m : μ) : RenderState :=
  match c with
  | .setTable addr count => { st with table := some (loadTable m addr count) }
  | .setBank bank => { st with bank := bank &&& 0xF }
  | .setAddressMode s t => { st with addressS := s, addressT := t }
  | .setFilter filter => { st with filter := filter }
  | .setBlendSwitch enabled => { st with blend := .ofSwitch enabled }
  | .setBlend mode => { st with blend := mode }
  | .setScissor r => { st with scissor := r.clamped fb.width fb.height }
  | .setPrimColor color => { st with primColor := color }
  | .setEnvColor color => { st with envColor := color }
  | .setCombine mode => { st with combine := mode }
  | .setDepthEnabled enabled => { st with depthEnabled := enabled }
  | .setDepthBuffer buffer => { st with depth := buffer }
  | _ => st

/-- The memory after a command in a given state. -/
@[specialize]
def draw (fb : Framebuffer) (c : Command) (st : RenderState) (m : μ) : μ :=
  match c with
  | .gradient left right => drawGradient fb st m left right
  | .tiles addr size spacing offset => drawTiles fb st m addr size spacing offset
  | .clearDepth value => st.depth.clear m value
  | .solidTriangle v => drawTriangle fb st m v none .affine false
  | .solidTriangleDepth v => drawTriangle fb st m v none .affine true
  | .rect r => drawRect fb st m r.source r.x.toInt r.y.toInt
  | .texTriangle format projection texture v =>
    drawTriangle fb st m v (some ⟨format.texel, texture⟩) projection false
  | .texTriangleDepth projection texture v =>
    drawTriangle fb st m v (some ⟨.rgba16, texture⟩) projection true
  | _ => m

/-- The state and the memory after a command. -/
@[specialize]
def apply (fb : Framebuffer) (c : Command) (st : RenderState) (m : μ) : RenderState × μ :=
  let st' := c.select fb st m
  (st', c.draw fb st m)

end Command

end DisplayRaster
