import DisplayRaster.Texture.Coord
import DisplayRaster.Texture.Fetch

/-!
# Sampling

`sample` turns a texture coordinate into a color: the texel it lies in, or the weighted mean of the
four texels around it.

Bilinear filtering works on the coordinate less half a texel.  Its fraction is cut to eight bits, so
the four weights add up to `2 ^ 16`, and each channel of the weighted sum is rounded to nearest.  To
take half a texel off, the coordinate is doubled in a signed 128-bit word; a numerator that is too
large for that wraps around.
-/

set_option autoImplicit false

namespace DisplayRaster

variable {μ : Type} [Memory μ]

/-- The signed word nearest to a value. -/
def saturate (value : Int) : Int := max (-2147483648) (min value 2147483647)

/-- The nearest texel of a coordinate. -/
@[specialize]
def sampleNearest (st : RenderState) (m : μ) (source : TexelSource) (coord : TextureCoord) :
    UInt16 :=
  texelFolded st m source (saturate (coord.s / coord.den)) (saturate (coord.t / coord.den))

/-- The signed 128-bit word that a value wraps around to. -/
def wrapped (value : Int) : Int := Int.bmod value 340282366920938463463374607431768211456

/-- The coordinate `num / den` less one half, as a whole number of texels and a fraction in 256ths.
The numerator is doubled in a signed 128-bit word. -/
def splitHalf (num den : Int) : Int × Nat :=
  let shifted := wrapped (num * 2 - den)
  let whole := shifted / (den * 2)
  (saturate whole, ((shifted - whole * (den * 2)) * 256 / (den * 2)).toNat)

/-- A texel and its weight in a mean. -/
structure Tap where
  texel : Color
  weight : Nat

/-- The weighted sum of a channel over the taps. -/
def tapSum (channel : Color → Nat) (taps : List Tap) : Nat :=
  taps.foldl (fun sum tap ↦ sum + channel tap.texel * tap.weight) 0

/-- The weighted mean of a channel for weights that add up to `2 ^ 16`, rounded to nearest. -/
def tapMean (channel : Color → Nat) (taps : List Tap) : Nat :=
  (tapSum channel taps + 0x8000) >>> 16

/-- The weighted mean of the taps. -/
def meanColor (taps : List Tap) : UInt16 :=
  Color.toPacked
    { r := UInt8.ofNat (tapMean (fun c ↦ c.r.toNat) taps)
      g := UInt8.ofNat (tapMean (fun c ↦ c.g.toNat) taps)
      b := UInt8.ofNat (tapMean (fun c ↦ c.b.toNat) taps)
      a := tapMean (fun c ↦ c.a.toNat) taps != 0 }

/-- The four texels around a coordinate, with their weights. -/
@[specialize]
def bilinearTaps (st : RenderState) (m : μ) (source : TexelSource) (coord : TextureCoord) :
    List Tap :=
  let (s0, fs) := splitHalf coord.s coord.den
  let (t0, ft) := splitHalf coord.t coord.den
  let s1 := saturate (s0 + 1)
  let t1 := saturate (t0 + 1)
  let tap (s t : Int) (weight : Nat) : Tap :=
    ⟨Color.ofPacked (texelFolded st m source s t), weight⟩
  [tap s0 t0 ((256 - fs) * (256 - ft)), tap s1 t0 (fs * (256 - ft)),
    tap s0 t1 ((256 - fs) * ft), tap s1 t1 (fs * ft)]

/-- The color of a texture at a coordinate. -/
@[specialize]
def sample (st : RenderState) (m : μ) (source : TexelSource) (coord : TextureCoord) : UInt16 :=
  match st.filter with
  | .nearest => sampleNearest st m source coord
  | .bilinear => meanColor (bilinearTaps st m source coord)

end DisplayRaster
