import DisplayRaster.Proofs.Texture.Range

/-!
# Sampling with checked operations

Division by zero, clamping between bounds that are out of order and reading past the end of a table
have no result in a machine, but Lean gives them one.  Here the sampler is written once more with
each such operation checked: `quotient?`, `remainder?` and `clamp?` are partial, a folded coordinate
has to lie in its period, and a lookup table is read without reducing the index.

`sample?_eq` says that no check ever fails for a coordinate with a positive denominator, and
`TextureCoord.ofWeights?_eq` that none fails on the way to such a coordinate.
-/

set_option autoImplicit false

namespace DisplayRaster

/-! ## Partial operations -/

/-- A quotient rounded down, for a divisor that is not zero. -/
def quotient? (a b : Int) : Option Int := if b = 0 then none else some (a / b)

/-- A remainder, for a divisor that is not zero. -/
def remainder? (a b : Int) : Option Int := if b = 0 then none else some (a % b)

/-- The value between two bounds that is nearest to `value`, for bounds that are in order. -/
def clamp? (lo hi value : Int) : Option Int :=
  if lo ≤ hi then some (max lo (min value hi)) else none

theorem quotient?_eq {b : Int} (h : b ≠ 0) (a : Int) : quotient? a b = some (a / b) := if_neg h

theorem remainder?_eq {b : Int} (h : b ≠ 0) (a : Int) : remainder? a b = some (a % b) := if_neg h

theorem clamp?_eq {lo hi : Int} (h : lo ≤ hi) (value : Int) :
    clamp? lo hi value = some (max lo (min value hi)) :=
  if_pos h

/-! ## Addressing -/

namespace AddressMode

/-- The period that addressing works with. -/
def period? (size : UInt32) : Option Int := clamp? 1 0x3FFFFFFF size.toNat

/-- The texel that a coordinate stands for in a period of `n` texels. -/
def foldIn? (mode : AddressMode) (coord n : Int) : Option Int :=
  match mode with
  | .clamp => clamp? 0 (n - 1) coord
  | .wrap => remainder? coord n
  | .mirror => (remainder? coord (2 * n)).map fun r ↦ if r < n then r else 2 * n - 1 - r

/-- The texel that a coordinate stands for.  It has to lie in the period. -/
def fold? (mode : AddressMode) (coord : Int) (size : UInt32) : Option Nat := do
  let texel ← mode.foldIn? coord (← period? size)
  if 0 ≤ texel ∧ texel < max 1 (min (size.toNat : Int) (2 ^ 30 - 1)) then some texel.toNat else none

theorem period?_eq (size : UInt32) : period? size = some (period size : Int) := by
  rw [period?, clamp?_eq (by decide), period]
  congr 1
  omega

theorem foldIn?_eq (mode : AddressMode) (coord : Int) (size : UInt32) :
    mode.foldIn? coord (period size) = some (mode.fold coord size : Int) := by
  have hn := period_pos size
  cases mode with
  | clamp => rw [foldIn?, clamp?_eq (by omega), natCast_fold_clamp]
  | wrap => rw [foldIn?, remainder?_eq (by omega), natCast_fold_wrap]
  | mirror =>
    rw [foldIn?, remainder?_eq (by omega), Option.map_some, natCast_fold_mirror]
    congr 1
    split <;> omega

theorem fold?_eq (mode : AddressMode) (coord : Int) (size : UInt32) :
    mode.fold? coord size = some (mode.fold coord size) := by
  have hlt := fold_lt mode coord size
  rw [period] at hlt
  have hin : 0 ≤ (mode.fold coord size : Int) ∧
      (mode.fold coord size : Int) < max 1 (min (size.toNat : Int) (2 ^ 30 - 1)) := by omega
  simp only [fold?, period?_eq, Option.bind_eq_bind, Option.bind_some, foldIn?_eq, if_pos hin,
    Int.toNat_natCast]

end AddressMode

/-! ## Texels -/

section

variable {μ : Type} [Memory μ]

/-- The entry of an index, which has to be an index of the table as it is. -/
def LookupTable.lookup? (table : LookupTable) (index : Nat) : Option UInt16 := table.entries[index]?

/-- The color of an index; black and transparent before any table has been set. -/
def RenderState.lookup? (st : RenderState) (index : Nat) : Option UInt16 :=
  match st.table with
  | some table => table.lookup? index
  | none => some 0

/-- The packed color of texel `(s, t)`.  Only indexed formats read a table. -/
def texelAt? (st : RenderState) (m : μ) (source : TexelSource) (s t : Nat) : Option UInt16 :=
  let index := source.texture.texelIndex s t
  let octet (offset : UInt32) := Memory.byteOrZero m (source.texture.addr + offset)
  match source.format with
  | .ci4 =>
    st.lookup? ((st.bank &&& 0xF).toNat * LookupTable.bankSize +
      (nibbleAt (octet (index / 2)) index.toNat).toNat)
  | .ci8 => st.lookup? (octet index).toNat
  | _ => some (texelAt st m source s t)

/-- The texel that a coordinate stands for after addressing. -/
def texelFolded? (st : RenderState) (m : μ) (source : TexelSource) (s t : Int) : Option UInt16 := do
  texelAt? st m source (← st.addressS.fold? s source.texture.width)
    (← st.addressT.fold? t source.texture.height)

theorem LookupTable.lookup?_eq (table : LookupTable) {index : Nat} (h : index < 256) :
    table.lookup? index = some (table.lookup index) := by
  have hmod : index % 256 = index := Nat.mod_eq_of_lt h
  simp only [lookup?, lookup, hmod, Vector.getElem?_eq_getElem h]

theorem RenderState.lookup?_eq (st : RenderState) {index : Nat} (h : index < 256) :
    st.lookup? index = some (st.lookup index) := by
  rw [lookup?, lookup]
  cases st.table with
  | none => rfl
  | some table => exact table.lookup?_eq h

theorem texelAt?_eq (st : RenderState) (m : μ) (source : TexelSource) (s t : Nat) :
    texelAt? st m source s t = some (texelAt st m source s t) := by
  obtain ⟨format, texture⟩ := source
  cases format with
  | ci4 =>
    refine st.lookup?_eq ?_
    have hbank := st.toNat_bank_lt
    have hnibble := toNat_nibbleAt_lt (Memory.byteOrZero m
      (texture.addr + texture.texelIndex s t / 2)) (texture.texelIndex s t).toNat
    simp only [LookupTable.bankSize]
    omega
  | ci8 => exact st.lookup?_eq (UInt8.toNat_lt _)
  | _ => rfl

theorem texelFolded?_eq (st : RenderState) (m : μ) (source : TexelSource) (s t : Int) :
    texelFolded? st m source s t = some (texelFolded st m source s t) := by
  simp only [texelFolded?, AddressMode.fold?_eq, Option.bind_eq_bind, Option.bind_some, texelAt?_eq,
    texelFolded]

/-! ## Coordinates -/

namespace TextureCoord

/-- A perspective weight divided by a common factor. -/
def share? (q g : Nat) : Option Nat := (quotient? q g).map Int.toNat

/-- The perspective weights without their common factor; none if all are zero. -/
def reduced? (q : Corners Nat) : Option (Option (Corners Nat)) :=
  let g := Nat.gcd (Nat.gcd q.a q.b) q.c
  if g = 0 then some none
  else do return some ⟨← share? q.a g, ← share? q.b g, ← share? q.c g⟩

/-- The coordinate of a pixel with corner weights `w` summing to `area`. -/
def ofWeights? (projection : Projection) (w : Corners Int) (v : Corners Vertex) (area : Int) :
    Option TextureCoord :=
  match projection with
  | .affine => some (affine w v area)
  | .perspective =>
    (reduced? (v.map fun v ↦ v.q.toNat)).map fun
      | none => origin
      | some q =>
        match weighted w v (reciprocals q) with
        | some coord => coord
        | none => (weighted w v (reciprocals (truncated q))).getD origin

theorem share?_eq {g : Nat} (h : g ≠ 0) (q : Nat) : share? q g = some (q / g) := by
  rw [share?, quotient?_eq (by omega), Option.map_some]
  exact congrArg some (Int.toNat_natCast (q / g))

theorem reduced?_eq (q : Corners Nat) : reduced? q = some (reduced q) := by
  rw [reduced?, reduced]
  split
  · rfl
  · next hg =>
    simp only [share?_eq hg]
    rfl

theorem ofWeights?_eq (projection : Projection) (w : Corners Int) (v : Corners Vertex)
    (area : Int) : ofWeights? projection w v area = some (ofWeights projection w v area) := by
  cases projection with
  | affine => rfl
  | perspective =>
    rw [ofWeights?, reduced?_eq]
    cases hq : reduced (v.map fun v ↦ v.q.toNat) with
    | none => simp only [Option.map_some, ofWeights, perspective, hq]
    | some q =>
      cases hcoord : weighted w v (reciprocals q) with
      | none => simp only [Option.map_some, ofWeights, perspective, hq, hcoord]
      | some coord => simp only [Option.map_some, ofWeights, perspective, hq, hcoord]

end TextureCoord

/-! ## Filters -/

/-- The signed word nearest to a value. -/
def saturate? (value : Int) : Option Int := clamp? (-2147483648) 2147483647 value

/-- The nearest texel of a coordinate. -/
def sampleNearest? (st : RenderState) (m : μ) (source : TexelSource) (coord : TextureCoord) :
    Option UInt16 := do
  let s ← saturate? (← quotient? coord.s coord.den)
  let t ← saturate? (← quotient? coord.t coord.den)
  texelFolded? st m source s t

/-- The coordinate `num / den` less one half, as a whole number of texels and a fraction in
256ths. -/
def splitHalf? (num den : Int) : Option (Int × Nat) := do
  let shifted := wrapped (num * 2 - den)
  let whole ← quotient? shifted (den * 2)
  let fraction ← quotient? ((shifted - whole * (den * 2)) * 256) (den * 2)
  return (← saturate? whole, fraction.toNat)

/-- A texel around a coordinate, with its weight. -/
def tap? (st : RenderState) (m : μ) (source : TexelSource) (s t : Int) (weight : Nat) :
    Option Tap :=
  (texelFolded? st m source s t).map fun texel ↦ ⟨Color.ofPacked texel, weight⟩

/-- The four texels around a coordinate, with their weights. -/
def bilinearTaps? (st : RenderState) (m : μ) (source : TexelSource) (coord : TextureCoord) :
    Option (List Tap) := do
  let (s0, fs) ← splitHalf? coord.s coord.den
  let (t0, ft) ← splitHalf? coord.t coord.den
  let s1 ← saturate? (s0 + 1)
  let t1 ← saturate? (t0 + 1)
  return [← tap? st m source s0 t0 ((256 - fs) * (256 - ft)),
    ← tap? st m source s1 t0 (fs * (256 - ft)),
    ← tap? st m source s0 t1 ((256 - fs) * ft), ← tap? st m source s1 t1 (fs * ft)]

/-- The color of a texture at a coordinate, whose denominator has to be positive. -/
def sample? (st : RenderState) (m : μ) (source : TexelSource) (coord : TextureCoord) :
    Option UInt16 :=
  if 0 < coord.den then
    match st.filter with
    | .nearest => sampleNearest? st m source coord
    | .bilinear => (bilinearTaps? st m source coord).map meanColor
  else none

theorem saturate?_eq (value : Int) : saturate? value = some (saturate value) :=
  clamp?_eq (by decide) value

theorem sampleNearest?_eq (st : RenderState) (m : μ) (source : TexelSource) {coord : TextureCoord}
    (h : 0 < coord.den) :
    sampleNearest? st m source coord = some (sampleNearest st m source coord) := by
  have hne : coord.den ≠ 0 := by omega
  simp only [sampleNearest?, quotient?_eq hne, Option.bind_eq_bind, Option.bind_some, saturate?_eq,
    texelFolded?_eq, sampleNearest]

theorem splitHalf?_eq {den : Int} (h : 0 < den) (num : Int) :
    splitHalf? num den = some (splitHalf num den) := by
  have hne : den * 2 ≠ 0 := by omega
  simp only [splitHalf?, quotient?_eq hne, Option.bind_eq_bind, Option.bind_some, saturate?_eq,
    splitHalf, Option.pure_def]

theorem tap?_eq (st : RenderState) (m : μ) (source : TexelSource) (s t : Int) (weight : Nat) :
    tap? st m source s t weight =
      some ⟨Color.ofPacked (texelFolded st m source s t), weight⟩ := by
  rw [tap?, texelFolded?_eq, Option.map_some]

theorem bilinearTaps?_eq (st : RenderState) (m : μ) (source : TexelSource) {coord : TextureCoord}
    (h : 0 < coord.den) :
    bilinearTaps? st m source coord = some (bilinearTaps st m source coord) := by
  simp only [bilinearTaps?, splitHalf?_eq h, Option.bind_eq_bind, Option.bind_some, saturate?_eq,
    tap?_eq, bilinearTaps, Option.pure_def]

/-- **Sampling at a positive denominator needs no check.** -/
theorem sample?_eq (st : RenderState) (m : μ) (source : TexelSource) {coord : TextureCoord}
    (h : 0 < coord.den) : sample? st m source coord = some (sample st m source coord) := by
  rw [sample?, if_pos h, sample]
  cases st.filter with
  | nearest => exact sampleNearest?_eq st m source h
  | bilinear => exact congrArg (Option.map meanColor) (bilinearTaps?_eq st m source h)

end

end DisplayRaster
