import DisplayRaster.Command

/-!
# Images and tiles of a display list

A display list names an image first and draws it later.  Tile and rectangle corners are in quarter
pixels: a tile includes its lower right corner and spans `⌊(lr - ul) / 4⌋ + 1` texels, a rectangle
excludes it and spans `⌊(lr - ul) / 4⌋` pixels; neither is ever negative.
-/

set_option autoImplicit false

namespace DisplayRaster

namespace DisplayList

/-- The image that the next draw shows. -/
structure Image where
  format : TexelFormat
  addr : UInt32
  /-- The texels from one row to the next. -/
  width : UInt32
  /-- The number of rows, in display lists that declare it. -/
  height : UInt32
  deriving DecidableEq

/-- The extent of a tile in texels. -/
structure TileExtent where
  width : UInt32
  height : UInt32
  deriving DecidableEq

/-- The corners of a rectangle in quarter pixels. -/
structure Box where
  ulx : UInt32
  uly : UInt32
  lrx : UInt32
  lry : UInt32
  deriving DecidableEq

/-- The whole quarters of a difference, rounded down, plus `extra`; zero if negative. -/
def quarterSpan (extra : Int) (ul lr : UInt32) : UInt32 :=
  UInt32.ofNat (((lr.toNat : Int) - ul.toNat) / 4 + extra).toNat

/-- The texels between two corner coordinates of a tile. -/
def texelSpan (ul lr : UInt32) : UInt32 := quarterSpan 1 ul lr

/-- The pixels between two corner coordinates of a rectangle. -/
def pixelSpan (ul lr : UInt32) : UInt32 := quarterSpan 0 ul lr

/-- The pixel of a coordinate in quarter pixels. -/
def quarterPixel (value : UInt32) : Int32 := (value >>> 2).toInt32

/-- The extent of a tile. -/
def TileExtent.ofBox (c : Box) : TileExtent :=
  ⟨texelSpan c.ulx c.lrx, texelSpan c.uly c.lry⟩

/-- The rectangle that shows an image between two corners.  Its size is that of the tile, if there
is one. -/
def Image.rect (image : Image) (tile? : Option TileExtent) (c : Box) : Rect :=
  let size := tile?.getD ⟨pixelSpan c.ulx c.lrx, pixelSpan c.uly c.lry⟩
  ⟨image.format, image.addr, size.width, size.height, quarterPixel c.ulx, quarterPixel c.uly⟩

/-- The whole image with its first texel at a pixel. -/
def Image.sprite (image : Image) (x y : Int32) : Rect :=
  ⟨image.format, image.addr, image.width, image.height, x, y⟩

/-- The texture of a triangle: the tile, over the rows of the image. -/
def Image.texture (image : Image) (tile : TileExtent) : Texture :=
  ⟨image.addr, tile.width, tile.height, image.width⟩

end DisplayList

end DisplayRaster
