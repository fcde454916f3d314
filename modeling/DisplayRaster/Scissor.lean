/-!
# Scissor rectangles

A scissor is a half-open rectangle of pixels outside of which nothing is drawn.  Its corners are the
signed words that a display list gives; the renderer keeps the rectangle clamped to the framebuffer.
-/

set_option autoImplicit false

namespace DisplayRaster

/-- A half-open rectangle: `x0 ≤ x < x1` and `y0 ≤ y < y1`. -/
structure Scissor where
  x0 : Int32
  y0 : Int32
  x1 : Int32
  y1 : Int32
  deriving DecidableEq

namespace Scissor

/-- The rectangle of a whole framebuffer. -/
def full (width height : UInt32) : Scissor := ⟨0, 0, width.toInt32, height.toInt32⟩

/-- The value between zero and `limit` that is nearest to `value`. -/
def clampTo (limit value : Int32) : Int32 :=
  if value < 0 then 0 else if limit < value then limit else value

theorem toInt_clampTo {limit value : Int32} (h : 0 ≤ limit.toInt) :
    (clampTo limit value).toInt = max 0 (min value.toInt limit.toInt) := by
  rw [clampTo]
  split
  · next hv =>
    rw [Int32.lt_iff_toInt_lt] at hv
    have : (0 : Int32).toInt = 0 := rfl
    omega
  · next hv =>
    rw [Int32.lt_iff_toInt_lt] at hv
    have : (0 : Int32).toInt = 0 := rfl
    split
    · next hl => rw [Int32.lt_iff_toInt_lt] at hl; omega
    · next hl => rw [Int32.lt_iff_toInt_lt] at hl; omega

/-- The rectangle with each corner moved into the framebuffer. -/
def clamped (r : Scissor) (width height : UInt32) : Scissor where
  x0 := clampTo width.toInt32 r.x0
  y0 := clampTo height.toInt32 r.y0
  x1 := clampTo width.toInt32 r.x1
  y1 := clampTo height.toInt32 r.y1

/-- Whether a pixel lies in the rectangle. -/
def contains (r : Scissor) (x y : Int) : Bool :=
  r.x0.toInt ≤ x && x < r.x1.toInt && r.y0.toInt ≤ y && y < r.y1.toInt

theorem contains_eq_true {r : Scissor} {x y : Int} :
    r.contains x y = true ↔
      r.x0.toInt ≤ x ∧ x < r.x1.toInt ∧ r.y0.toInt ≤ y ∧ y < r.y1.toInt := by
  simp [contains, and_assoc]

end Scissor

end DisplayRaster
