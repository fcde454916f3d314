/-!
# Extents

Pixels are addressed by integer coordinates.  Extents start at `(0, 0)` and are as large as two
words say; coordinates outside an extent still have a place in memory, found by arithmetic that
wraps around at `2 ^ 32`.
-/

set_option autoImplicit false

namespace DisplayRaster

/-- A coordinate as the word that address arithmetic works with. -/
def coordWord (coord : Int) : UInt32 := coord.toInt32.toUInt32

/-- Whether a pixel lies in an extent whose first pixel is `(0, 0)`. -/
def inExtent (width height : UInt32) (x y : Int) : Bool :=
  0 ≤ x && 0 ≤ y && x < width.toNat && y < height.toNat

theorem inExtent_eq_true {width height : UInt32} {x y : Int} :
    inExtent width height x y = true ↔
      0 ≤ x ∧ 0 ≤ y ∧ x < width.toNat ∧ y < height.toNat := by
  simp [inExtent, and_assoc]

end DisplayRaster
