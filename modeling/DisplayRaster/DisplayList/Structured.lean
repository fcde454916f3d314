import DisplayRaster.DisplayList.Image

/-!
# Structured display lists

A structured display list is a list of `Directive`s.  `Directive.translate` turns it into drawing
commands.  The image, the tile and the lookup table that directives describe are kept in a `Context`
until a later directive uses them; a directive that lacks what it needs is dropped.  The list ends
at its first end directive, and the commands always end with the end command.
-/

set_option autoImplicit false

namespace DisplayRaster

namespace DisplayList

/-- One entry of a structured display list. -/
inductive Directive where
  /-- Where the pixels are meant to go.  The framebuffer is placed by the video registers, so this
  has no effect. -/
  | setColorImage (addr width : UInt32)
  | setTextureImage (image : Image)
  /-- Describe the lookup table that is loaded next. -/
  | setTable (addr count : UInt32)
  /-- Load the lookup table that was described. -/
  | loadTable
  | setTileSize (corners : Box)
  /-- Draw the image between two corners. -/
  | textureRectangle (corners : Box)
  | setBank (bank : UInt8)
  | setPrimColor (color : UInt16)
  | setEnvColor (color : UInt16)
  | setCombine (mode : CombineMode)
  /-- Draw the whole image with its first texel at a pixel. -/
  | drawSprite (x y : Int32)
  /-- A triangle in the primitive color. -/
  | fillTriangle (points : Corners (Int32 × Int32))
  /-- A gradient and a grid of tiles over it. -/
  | backgroundGrid (left right : UInt16) (tileAddr : UInt32) (tileSize spacing : UInt8)
      (offset : UInt16)
  | setScissor (rect : Scissor)
  | setFilter (filter : TextureFilter)
  | setBlend (mode : BlendMode)
  | setAddressMode (s t : AddressMode)
  | setDepthEnabled (enabled : Bool)
  | setDepthBuffer (buffer : DepthBuffer)
  | clearDepth (value : UInt16)
  /-- The end of the list. -/
  | finish
  deriving DecidableEq

/-- What directives have described so far. -/
structure Context where
  image : Option Image
  /-- The address and the number of entries of the lookup table. -/
  table : Option (UInt32 × UInt32)
  tile : Option TileExtent
  deriving DecidableEq

/-- The context at the start of a list. -/
def Context.initial : Context := ⟨none, none, none⟩

namespace Directive

/-- The context after a directive. -/
def describe (ctx : Context) : Directive → Context
  | .setTextureImage image => { ctx with image := some image }
  | .setTable addr count => { ctx with table := some (addr, count) }
  | .setTileSize corners => { ctx with tile := some (.ofBox corners) }
  | _ => ctx

/-- The commands of a directive. -/
def commands (ctx : Context) : Directive → List Command
  | .setColorImage .. | .setTextureImage _ | .setTable .. | .setTileSize _ | .finish => []
  | .loadTable =>
    match ctx.table with
    | some (addr, count) => [.setTable addr count]
    | none => []
  | .textureRectangle corners =>
    match ctx.image with
    | some image => [.rect (image.rect ctx.tile corners)]
    | none => []
  | .setBank bank => [.setBank (bank &&& 0xF)]
  | .setPrimColor color => [.setPrimColor color]
  | .setEnvColor color => [.setEnvColor color]
  | .setCombine mode => [.setCombine mode]
  | .drawSprite x y =>
    match ctx.image with
    | some image => [.rect (image.sprite x y)]
    | none => []
  | .fillTriangle points => [.solidTriangle (points.map fun p ↦ .position p.1 p.2)]
  | .backgroundGrid left right tileAddr tileSize spacing offset =>
    [.gradient left right, .tiles tileAddr tileSize spacing offset]
  | .setScissor rect => [.setScissor rect]
  | .setFilter filter => [.setFilter filter]
  | .setBlend mode => [.setBlend mode]
  | .setAddressMode s t => [.setAddressMode s t]
  | .setDepthEnabled enabled => [.setDepthEnabled enabled]
  | .setDepthBuffer buffer => [.setDepthBuffer buffer]
  | .clearDepth value => [.clearDepth value]

/-- The commands of a list, without an end command, in reverse and before those in `done`. -/
def translateOnto (ctx : Context) (done : List Command) : List Directive → List Command
  | [] => done
  | .finish :: _ => done
  | d :: rest => translateOnto (d.describe ctx) ((d.commands ctx).reverse ++ done) rest

/-- The commands of a structured display list. -/
def translate (directives : List Directive) : List Command :=
  (Command.finish :: translateOnto .initial [] directives).reverse

end Directive

end DisplayList

end DisplayRaster
