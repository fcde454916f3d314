/-!
# Corners

A triangle has three corners, and most of what is known of a triangle is known of each corner.
`Corners α` holds one value for each.
-/

set_option autoImplicit false

namespace DisplayRaster

/-- One value for each corner of a triangle. -/
structure Corners (α : Type) where
  a : α
  b : α
  c : α
  deriving DecidableEq

namespace Corners

/-- A function applied at each corner. -/
@[inline]
def map {α β : Type} (f : α → β) (v : Corners α) : Corners β := ⟨f v.a, f v.b, f v.c⟩

/-- Two values at each corner combined into one. -/
@[inline]
def zipWith {α β γ : Type} (f : α → β → γ) (v : Corners α) (w : Corners β) : Corners γ :=
  ⟨f v.a w.a, f v.b w.b, f v.c w.c⟩

/-- The values in corner order. -/
def toList {α : Type} (v : Corners α) : List α := [v.a, v.b, v.c]

/-- The corners with the last two exchanged, which turns the triangle over. -/
def flip {α : Type} (v : Corners α) : Corners α := ⟨v.a, v.c, v.b⟩

/-- The sum over the corners. -/
@[inline]
def sum (v : Corners Int) : Int := v.a + v.b + v.c

/-- The least value at a corner. -/
@[inline]
def least (v : Corners Int) : Int := min (min v.a v.b) v.c

/-- The greatest value at a corner. -/
@[inline]
def greatest (v : Corners Int) : Int := max (max v.a v.b) v.c

@[simp]
theorem flip_flip {α : Type} (v : Corners α) : v.flip.flip = v := rfl

@[simp]
theorem map_flip {α β : Type} (f : α → β) (v : Corners α) : v.flip.map f = (v.map f).flip := rfl

end Corners

end DisplayRaster
