import DisplayRaster.Vertex

/-!
# Texture coordinates

The texture coordinate of a pixel is an exact pair of fractions with one positive denominator
(`TextureCoord`), made from the weights of the three corners at that pixel.

* `TextureCoord.affine` weighs each corner by its weight alone.
* `TextureCoord.perspective` weighs each corner by its weight over its perspective weight `q`.  Each
  reciprocal is scaled by the product of all nonzero `q`, so everything stays an integer; a corner
  whose `q` is zero takes no part.  Common factors of the three `q` are removed first.  If a sum
  still needs more than 128 bits, the `q` are cut to their top sixteen bits and the sums are made
  again.
-/

set_option autoImplicit false

namespace DisplayRaster

/-- The texture coordinate `(s / den, t / den)`. -/
structure TextureCoord where
  s : Int
  t : Int
  den : Int
  deriving DecidableEq

namespace TextureCoord

/-- The coordinate of the first texel's corner. -/
def origin : TextureCoord := ⟨0, 0, 1⟩

/-- The sum over the corners of weight times value. -/
@[inline]
def weightedSum (w values : Corners Int) : Int := (w.zipWith (· * ·) values).sum

/-- The coordinate of a pixel under linear interpolation. -/
def affine (w : Corners Int) (v : Corners Vertex) (area : Int) : TextureCoord where
  s := weightedSum w (v.map fun v ↦ v.s.toInt)
  t := weightedSum w (v.map fun v ↦ v.t.toInt)
  den := area

/-! ## Perspective -/

/-- Whether a value fits in a signed 128-bit word. -/
def fits (n : Int) : Bool :=
  -170141183460469231731687303715884105728 ≤ n && n ≤ 170141183460469231731687303715884105727

/-- Whether each term of a sum and each partial sum fits. -/
def sumFits (terms : Corners Int) : Bool :=
  fits terms.a && fits terms.b && fits terms.c && fits (terms.a + terms.b) && fits terms.sum

/-- A perspective weight as a factor of a product over the nonzero ones. -/
def factor (q : Nat) : Nat := if q = 0 then 1 else q

/-- The reciprocals of the perspective weights, scaled by the product of the nonzero ones. -/
def reciprocals (q : Corners Nat) : Corners Int where
  a := if q.a = 0 then 0 else factor q.b * factor q.c
  b := if q.b = 0 then 0 else factor q.a * factor q.c
  c := if q.c = 0 then 0 else factor q.a * factor q.b

/-- The coordinate for the scaled reciprocals `r`, or none if a sum does not fit. -/
def weighted (w : Corners Int) (v : Corners Vertex) (r : Corners Int) : Option TextureCoord :=
  let weights := w.zipWith (· * ·) r
  let sTerms := weights.zipWith (fun w v ↦ w * v.s.toInt) v
  let tTerms := weights.zipWith (fun w v ↦ w * v.t.toInt) v
  if sumFits weights && sumFits sTerms && sumFits tTerms then
    if weights.sum = 0 then some origin else some ⟨sTerms.sum, tTerms.sum, weights.sum⟩
  else none

/-- The perspective weights without their common factor; none if all are zero. -/
def reduced (q : Corners Nat) : Option (Corners Nat) :=
  let g := Nat.gcd (Nat.gcd q.a q.b) q.c
  if g = 0 then none else some (q.map (· / g))

/-- The perspective weights shifted down until the largest has at most sixteen bits; a nonzero one
stays nonzero. -/
def truncated (q : Corners Nat) : Corners Nat :=
  let top := max (max q.a q.b) q.c
  let shift := if top = 0 then 0 else top.log2 + 1 - 16
  q.map fun q ↦ if q = 0 then 0 else max (q >>> shift) 1

/-- The coordinate of a pixel under perspective; the origin if no corner takes part. -/
def perspective (w : Corners Int) (v : Corners Vertex) : TextureCoord :=
  match reduced (v.map fun v ↦ v.q.toNat) with
  | none => origin
  | some q =>
    match weighted w v (reciprocals q) with
    | some coord => coord
    | none => (weighted w v (reciprocals (truncated q))).getD origin

/-- The coordinate of a pixel with corner weights `w` summing to `area`. -/
def ofWeights (projection : Projection) (w : Corners Int) (v : Corners Vertex) (area : Int) :
    TextureCoord :=
  match projection with
  | .affine => affine w v area
  | .perspective => perspective w v

end TextureCoord

end DisplayRaster
