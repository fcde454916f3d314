/-!
# Texel formats

`TexelFormat` is every format a texture can have, `TriangleFormat` those a textured triangle can
have.  `TexelFormat.triangle?` is the partial inverse of `TriangleFormat.texel`.
-/

set_option autoImplicit false

namespace DisplayRaster

/-- How a texel is stored. -/
inductive TexelFormat where
  /-- A four-bit index into a sixteen-entry bank of the lookup table. -/
  | ci4
  /-- An eight-bit index into the lookup table. -/
  | ci8
  /-- A packed color. -/
  | rgba16
  /-- Four bits of intensity. -/
  | i4
  /-- Eight bits of intensity. -/
  | i8
  /-- Four bits of intensity over four of alpha. -/
  | ia8
  /-- Eight bits of intensity over eight of alpha. -/
  | ia16
  deriving DecidableEq

/-- The storage size of one texel. -/
def TexelFormat.texelBits : TexelFormat → Nat
  | .ci4 | .i4 => 4
  | .ci8 | .i8 | .ia8 => 8
  | .rgba16 | .ia16 => 16

/-- Whether texels are indices into the lookup table. -/
def TexelFormat.isIndexed : TexelFormat → Bool
  | .ci4 | .ci8 => true
  | _ => false

/-- The formats a textured triangle can have. -/
inductive TriangleFormat where
  | ci8
  | ci4
  | ia8
  | ia16
  | rgba16
  deriving DecidableEq

/-- A triangle format as a texel format. -/
def TriangleFormat.texel : TriangleFormat → TexelFormat
  | .ci8 => .ci8
  | .ci4 => .ci4
  | .ia8 => .ia8
  | .ia16 => .ia16
  | .rgba16 => .rgba16

/-- The triangle format of a texel format; the pure intensity formats have none. -/
def TexelFormat.triangle? : TexelFormat → Option TriangleFormat
  | .ci8 => some .ci8
  | .ci4 => some .ci4
  | .ia8 => some .ia8
  | .ia16 => some .ia16
  | .rgba16 => some .rgba16
  | .i4 | .i8 => none

@[simp]
theorem TriangleFormat.triangle?_texel (f : TriangleFormat) : f.texel.triangle? = some f := by
  cases f <;> rfl

theorem TexelFormat.triangle?_eq_some_iff {f : TexelFormat} {g : TriangleFormat} :
    f.triangle? = some g ↔ f = g.texel := by
  cases f <;> cases g <;> decide

end DisplayRaster
