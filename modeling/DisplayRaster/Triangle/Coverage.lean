import DisplayRaster.Framebuffer
import DisplayRaster.Region
import DisplayRaster.Vertex

/-!
# Which pixels a triangle covers

Positions are taken in half pixels, so that a vertex has even coordinates and the center of pixel
`(x, y)` is the point `(2x + 1, 2y + 1)`.  `edge a b p` is twice the signed area of the triangle `a
b p`.  A triangle with corners in negative order is turned over first, and one without area draws
nothing.  A pixel is covered iff the edge value of its center is positive at all three edges, or
zero at an edge that is a top or left one; triangles that share an edge therefore share no pixel.

The three edge values of a covered pixel are the weights of the opposite corners; they add up to the
area.
-/

set_option autoImplicit false

namespace DisplayRaster

/-- A position in half pixels. -/
structure Point where
  x : Int
  y : Int
  deriving DecidableEq

/-- Vertex coordinates are limited to this many pixels from the origin. -/
def guardBand : Int := 16777216

/-- A vertex coordinate in half pixels. -/
def halfPixels (coord : Int32) : Int :=
  max (-guardBand) (min coord.toInt guardBand) * 2

/-- The position of a vertex. -/
def Vertex.point (v : Vertex) : Point := ⟨halfPixels v.x, halfPixels v.y⟩

/-- The center of a pixel. -/
def pixelCenter (x y : Int) : Point := ⟨2 * x + 1, 2 * y + 1⟩

/-- Twice the signed area of the triangle `a b p`. -/
@[inline]
def edge (a b p : Point) : Int := (b.x - a.x) * (p.y - a.y) - (b.y - a.y) * (p.x - a.x)

/-- Whether the edge from `a` to `b` of a positive triangle is a left edge or a top one. -/
def isTopOrLeft (a b : Point) : Bool := b.y < a.y || (b.y = a.y && a.x < b.x)

/-- Whether a point with edge value `w` is on the inner side of the edge from `a` to `b`. -/
@[inline]
def admits (a b : Point) (w : Int) : Bool := 0 < w || (w = 0 && isTopOrLeft a b)

/-- Twice the signed area of a triangle. -/
def signedArea (p : Corners Point) : Int := edge p.a p.b p.c

/-- The edge values of a point; each belongs to the corner opposite its edge. -/
@[inline]
def edgeValues (p : Corners Point) (o : Point) : Corners Int :=
  ⟨edge p.b p.c o, edge p.c p.a o, edge p.a p.b o⟩

/-- Whether a point with edge values `w` is covered by the positive triangle `p`. -/
@[inline]
def coversValues (p : Corners Point) (w : Corners Int) : Bool :=
  admits p.b p.c w.a && admits p.c p.a w.b && admits p.a p.b w.c

/-- Turning a triangle over changes the sign of its area. -/
theorem signedArea_flip (p : Corners Point) : signedArea p.flip = -signedArea p := by
  simp only [signedArea, edge, Corners.flip]
  grind

/-- The edge values of any point add up to the area. -/
theorem sum_edgeValues (p : Corners Point) (o : Point) : (edgeValues p o).sum = signedArea p := by
  simp only [Corners.sum, edgeValues, signedArea, edge]
  grind

theorem nonneg_of_admits {a b : Point} {w : Int} (h : admits a b w = true) : 0 ≤ w := by
  simp only [admits, Bool.or_eq_true, Bool.and_eq_true, decide_eq_true_eq] at h
  omega

/-- A triangle with its corners in positive order. -/
structure Oriented where
  vertices : Corners Vertex
  points : Corners Point
  /-- Twice the area. -/
  area : Int
  points_eq : points = vertices.map Vertex.point
  area_eq : area = signedArea points
  area_pos : 0 < area

namespace Oriented

/-- A triangle put into positive order; none if it has no area. -/
def ofVertices (v : Corners Vertex) : Option Oriented :=
  let p := v.map Vertex.point
  let area := signedArea p
  if h : 0 < area then some ⟨v, p, area, rfl, rfl, h⟩
  else if h : area < 0 then
    some ⟨v.flip, p.flip, -area, rfl, (signedArea_flip p).symm, Int.neg_pos.2 h⟩
  else none

/-- The weights of the corners at the center of a pixel. -/
@[inline]
def weights (tri : Oriented) (x y : Int) : Corners Int :=
  edgeValues tri.points (pixelCenter x y)

/-- The weights at any pixel add up to the area. -/
theorem sum_weights (tri : Oriented) (x y : Int) : (tri.weights x y).sum = tri.area := by
  rw [weights, sum_edgeValues, tri.area_eq]

/-- Whether the triangle covers a pixel. -/
def covers (tri : Oriented) (x y : Int) : Bool :=
  coversValues tri.points (tri.weights x y)

/-- The pixels of a framebuffer whose centers lie within the bounds of the triangle. -/
def region (tri : Oriented) (fb : Framebuffer) : Region where
  x0 := max ((tri.points.map Point.x).least / 2) 0
  y0 := max ((tri.points.map Point.y).least / 2) 0
  x1 := min ((tri.points.map Point.x).greatest / 2) fb.width.toNat
  y1 := min ((tri.points.map Point.y).greatest / 2) fb.height.toNat

end Oriented

end DisplayRaster
