import DisplayRaster.Proofs.Color
import DisplayRaster.Proofs.Draw.Mask
import DisplayRaster.Proofs.Draw.Plots
import Mathlib.Data.Rat.Floor
import Mathlib.Tactic.Linarith
import Mathlib.Tactic.Positivity

/-!
# Gradients are rounded ramps

A gradient mixes its two colors in 32-bit words.  `mixSteps` lists the values that come up for one
channel of one column; in a framebuffer of at most `2 ^ 27` columns each of them fits
(`mixSteps_fit`).  So a channel is the exact mixture rounded to nearest, `ramp`, whether the span
is even or odd (`toNat_rampChannel`), and a ramp goes from the left color to the right one without
turning back.

The ramp is that of the whole framebuffer, whatever part of it the scissor shows
(`drawGradient_ramp`).
-/

set_option autoImplicit false

namespace DisplayRaster

open Rdram

/-! ## Ramps -/

/-- The mixture of `c0` and `c1` in column `x` of `width`, rounded to nearest with halves up.  The
only column of a narrow framebuffer has the left value. -/
def ramp (c0 c1 x width : Int) : Int :=
  if width = 1 then c0
  else ⌊((c0 * (width - 1 - x) + c1 * x : Int) : ℚ) / (width - 1 : Int) + 1 / 2⌋

/-- Adding half the divisor before a division rounds to nearest, also if the half is cut. -/
theorem floor_add_half (a : Int) {n : Int} (hn : 0 < n) :
    ⌊(a : ℚ) / n + 1 / 2⌋ = (a + n / 2) / n := by
  have hnq : (0 : ℚ) < n := by exact_mod_cast hn
  have hsum : (a : ℚ) / n + 1 / 2 = ((2 * a + n : Int) : ℚ) / (2 * n : Int) := by
    push_cast
    field_simp
  have hle := Int.ediv_mul_le (a + n / 2) hn.ne'
  have hlt := Int.lt_ediv_add_one_mul_self (a + n / 2) hn
  rw [Int.add_mul, Int.one_mul] at hlt
  rw [hsum, Int.floor_eq_iff, le_div_iff₀ (by positivity), div_lt_iff₀ (by positivity)]
  generalize (a + n / 2) / n = q at hle hlt
  constructor
  · have h : q * (2 * n) ≤ 2 * a + n := by
      rw [Int.mul_left_comm]
      omega
    exact_mod_cast h
  · have h : 2 * a + n < (q + 1) * (2 * n) := by
      rw [Int.mul_left_comm, Int.add_mul, Int.one_mul]
      omega
    exact_mod_cast h

section

variable {c0 c1 x x' width : Int}

/-- The only column of a narrow framebuffer has the left value. -/
theorem ramp_narrow (c0 c1 x : Int) (hwidth : width = 1) : ramp c0 c1 x width = c0 := if_pos hwidth

theorem ramp_eq (hwidth : 1 < width) :
    ramp c0 c1 x width = (c0 * (width - 1 - x) + c1 * x + (width - 1) / 2) / (width - 1) := by
  rw [ramp, if_neg (by omega), floor_add_half _ (by omega)]

/-- The first column has the left value. -/
theorem ramp_first (c0 c1 : Int) (hwidth : 1 ≤ width) : ramp c0 c1 0 width = c0 := by
  by_cases h1 : width = 1
  · exact ramp_narrow c0 c1 0 h1
  · have hhalf : (width - 1) / 2 / (width - 1) = 0 := Int.ediv_eq_zero_of_lt (by omega) (by omega)
    rw [ramp_eq (by omega), Int.sub_zero, Int.mul_zero, Int.add_zero, Int.add_comm,
      Int.add_mul_ediv_right _ _ (by omega), hhalf, Int.zero_add]

/-- The last column has the right value, unless it is also the first. -/
theorem ramp_last (c0 c1 : Int) (hwidth : 1 < width) : ramp c0 c1 (width - 1) width = c1 := by
  have hhalf : (width - 1) / 2 / (width - 1) = 0 := Int.ediv_eq_zero_of_lt (by omega) (by omega)
  rw [ramp_eq hwidth, Int.sub_self, Int.mul_zero, Int.zero_add, Int.add_comm,
    Int.add_mul_ediv_right _ _ (by omega), hhalf, Int.zero_add]

/-- The mixture moves by the difference of the ends for each column. -/
theorem mixture_eq (c0 c1 x span : Int) : c0 * (span - x) + c1 * x = c0 * span + (c1 - c0) * x := by
  rw [Int.mul_sub, Int.sub_mul]
  omega

/-- A ramp to a greater value does not fall. -/
theorem ramp_le_ramp (hwidth : 1 ≤ width) (hc : c0 ≤ c1) (hx : x ≤ x') :
    ramp c0 c1 x width ≤ ramp c0 c1 x' width := by
  by_cases h1 : width = 1
  · rw [ramp_narrow _ _ _ h1, ramp_narrow _ _ _ h1]
  · rw [ramp_eq (by omega), ramp_eq (by omega), mixture_eq, mixture_eq]
    have hmul : (c1 - c0) * x ≤ (c1 - c0) * x' := Int.mul_le_mul_of_nonneg_left hx (by omega)
    exact Int.ediv_le_ediv (by omega) (by omega)

/-- A ramp to a smaller value does not rise. -/
theorem ramp_ge_ramp (hwidth : 1 ≤ width) (hc : c1 ≤ c0) (hx : x ≤ x') :
    ramp c0 c1 x' width ≤ ramp c0 c1 x width := by
  by_cases h1 : width = 1
  · rw [ramp_narrow _ _ _ h1, ramp_narrow _ _ _ h1]
  · rw [ramp_eq (by omega), ramp_eq (by omega), mixture_eq, mixture_eq]
    have hmul : (c1 - c0) * x' ≤ (c1 - c0) * x := Int.mul_le_mul_of_nonpos_left (by omega) hx
    exact Int.ediv_le_ediv (by omega) (by omega)

/-- **A ramp stays between its ends.** -/
theorem ramp_between (hx : 0 ≤ x) (hxw : x < width) :
    min c0 c1 ≤ ramp c0 c1 x width ∧ ramp c0 c1 x width ≤ max c0 c1 := by
  have hwidth : 1 ≤ width := by omega
  have hx' : x ≤ width - 1 := by omega
  have hfirst := ramp_first c0 c1 hwidth
  have hlast : ramp c0 c1 (width - 1) width = c0 ∨ ramp c0 c1 (width - 1) width = c1 := by
    by_cases h1 : width = 1
    · exact .inl (ramp_narrow _ _ _ h1)
    · exact .inr (ramp_last c0 c1 (by omega))
  rcases Int.le_total c0 c1 with hc | hc
  · have hlow := ramp_le_ramp hwidth hc hx
    have hhigh := ramp_le_ramp hwidth hc hx'
    omega
  · have hlow := ramp_ge_ramp hwidth hc hx
    have hhigh := ramp_ge_ramp hwidth hc hx'
    omega

end

/-! ## Mixing in words -/

/-- The values that come up when two channels are mixed in column `x` of a ramp over `span`. -/
def mixSteps (c0 c1 x span : Int) : List Int :=
  [span - x, c0 * (span - x), c1 * x, c0 * (span - x) + c1 * x, span / 2,
    c0 * (span - x) + c1 * x + span / 2, (c0 * (span - x) + c1 * x + span / 2) / span]

/-- Whether a value is that of an unsigned 32-bit word. -/
def FitsWord (n : Int) : Prop := 0 ≤ n ∧ n < 2 ^ 32

section

variable {c0 c1 x span : Nat} (hc0 : c0 < 32) (hc1 : c1 < 32) (hx : x ≤ span)

include hc0 hc1 hx

/-- A mixture is at most as large as the brightest channel over the whole span. -/
theorem mixture_le : c0 * (span - x) + c1 * x ≤ 31 * span :=
  calc c0 * (span - x) + c1 * x
      ≤ 31 * (span - x) + 31 * x :=
        Nat.add_le_add (Nat.mul_le_mul_right _ (by omega)) (Nat.mul_le_mul_right _ (by omega))
    _ = 31 * span := by omega

/-- **Every value of a mixture fits in its word.** -/
theorem mixSteps_fit (hspan : span < 2 ^ 27) : ∀ n ∈ mixSteps c0 c1 x span, FitsWord n := by
  have hle := mixture_le hc0 hc1 hx
  have hsub : (span : Int) - x = (span - x : Nat) := by omega
  intro n hn
  simp only [mixSteps, hsub] at hn
  norm_cast at hn
  generalize c0 * (span - x) = left at hle hn
  generalize c1 * x = right at hle hn
  have hdiv : (left + right + span / 2) / span ≤ left + right + span / 2 := Nat.div_le_self _ _
  generalize (left + right + span / 2) / span = quotient at hdiv hn
  rw [FitsWord]
  simp only [List.mem_cons, List.not_mem_nil, or_false] at hn
  omega

end

/-- **A channel of a gradient is the exact mixture, rounded.** -/
theorem toNat_rampChannel {c0 c1 : UInt8} {x span : UInt32} (hc0 : c0.toNat < 32)
    (hc1 : c1.toNat < 32) (hx : x.toNat ≤ span.toNat) (hspan : span.toNat < 2 ^ 27) :
    (rampChannel c0 c1 x span).toNat =
      (c0.toNat * (span.toNat - x.toNat) + c1.toNat * x.toNat + span.toNat / 2) / span.toNat := by
  have hle := mixture_le hc0 hc1 hx
  have hsub : (span - x).toNat = span.toNat - x.toNat :=
    UInt32.toNat_sub_of_le _ _ (UInt32.le_iff_toNat_le.2 hx)
  have hquotient : (c0.toNat * (span.toNat - x.toNat) + c1.toNat * x.toNat + span.toNat / 2) /
      span.toNat < 2 ^ 8 := by
    rcases Nat.eq_zero_or_pos span.toNat with h0 | hpos
    · rw [h0, Nat.div_zero]
      omega
    · exact Nat.div_lt_of_lt_mul (by omega)
  rw [rampChannel, UInt32.toNat_toUInt8, UInt32.toNat_div, UInt32.toNat_add, UInt32.toNat_add,
    UInt32.toNat_mul, UInt32.toNat_mul, UInt32.toNat_div, hsub, UInt8.toNat_toUInt32,
    UInt8.toNat_toUInt32, show (2 : UInt32).toNat = 2 from rfl]
  generalize c0.toNat * (span.toNat - x.toNat) = left at hle hquotient ⊢
  generalize c1.toNat * x.toNat = right at hle hquotient ⊢
  have hleft : left % 2 ^ 32 = left := Nat.mod_eq_of_lt (by omega)
  have hright : right % 2 ^ 32 = right := Nat.mod_eq_of_lt (by omega)
  have hsum : (left + right) % 2 ^ 32 = left + right := Nat.mod_eq_of_lt (by omega)
  rw [hleft, hright, hsum, Nat.mod_eq_of_lt (show left + right + span.toNat / 2 < 2 ^ 32 by omega),
    Nat.mod_eq_of_lt hquotient]

/-! ## Colors -/

theorem Color.IsFiveBit.channel_lt {c : Color} (h : c.IsFiveBit) {channel : Color → UInt8}
    (hchannel : channel ∈ [Color.r, Color.g, Color.b]) : (channel c).toNat < 32 := by
  simp only [List.mem_cons, List.not_mem_nil, or_false] at hchannel
  rcases hchannel with rfl | rfl | rfl
  · exact h.r
  · exact h.g
  · exact h.b

section

variable {width : UInt32} {x : Int} (hx : 0 ≤ x) (hxw : x < width.toNat)
  (hwide : width.toNat ≤ 2 ^ 27)

include hx hxw hwide

theorem toNat_coordWord_column : (coordWord x).toNat = x.toNat := by
  obtain ⟨x, rfl⟩ := Int.eq_ofNat_of_zero_le hx
  rw [coordWord_natCast, UInt32.toNat_ofNat', Int.toNat_natCast, Nat.mod_eq_of_lt (by omega)]

/-- A channel of a gradient over more than one column. -/
theorem rampChannel_eq_ramp (hwidth : 1 < width.toNat) {c0 c1 : UInt8} (hc0 : c0.toNat < 32)
    (hc1 : c1.toNat < 32) :
    ((rampChannel c0 c1 (coordWord x) (width - 1)).toNat : Int) =
        ramp c0.toNat c1.toNat x width.toNat ∧
      (rampChannel c0 c1 (coordWord x) (width - 1)).toNat < 32 := by
  have hcolumn := toNat_coordWord_column hx hxw hwide
  have hspan : (width - 1).toNat = width.toNat - 1 :=
    UInt32.toNat_sub_of_le _ _ (UInt32.le_iff_toNat_le.2 hwidth.le)
  have hvalue : ((rampChannel c0 c1 (coordWord x) (width - 1)).toNat : Int) =
      ramp c0.toNat c1.toNat x width.toNat := by
    have hright : ((x.toNat : Nat) : Int) = x := by omega
    have hleft : ((width.toNat - 1 - x.toNat : Nat) : Int) = width.toNat - 1 - x := by omega
    have hone : ((width.toNat - 1 : Nat) : Int) = width.toNat - 1 := by omega
    rw [toNat_rampChannel hc0 hc1 (by omega) (by omega), ramp_eq (by omega), hspan, hcolumn]
    push_cast [hleft, hright, hone]
    rfl
  refine ⟨hvalue, ?_⟩
  have hbetween : min (c0.toNat : Int) c1.toNat ≤ ramp c0.toNat c1.toNat x width.toNat ∧
      ramp c0.toNat c1.toNat x width.toNat ≤ max (c0.toNat : Int) c1.toNat := ramp_between hx hxw
  omega

/-- **Every column has its mixture in each channel**, and is opaque. -/
theorem ofPacked_rampColor {left right : Color} (hleft : left.IsFiveBit)
    (hright : right.IsFiveBit) :
    let color := Color.ofPacked (rampColor left right (coordWord x) width)
    color.a = true ∧ ∀ channel ∈ [Color.r, Color.g, Color.b], ((channel color).toNat : Int) =
      ramp (channel left).toNat (channel right).toNat x width.toNat := by
  intro color
  by_cases h1 : width.toNat = 1
  · have hcolor : color = { left with a := true } := by
      show Color.ofPacked (rampColor left right (coordWord x) width) = _
      rw [rampColor, if_pos (UInt32.le_iff_toNat_le.2 h1.le)]
      exact Color.ofPacked_toPacked ⟨hleft.r, hleft.g, hleft.b⟩
    rw [hcolor]
    refine ⟨rfl, fun channel hchannel ↦ ?_⟩
    rw [ramp_narrow _ _ _ (by omega)]
    simp only [List.mem_cons, List.not_mem_nil, or_false] at hchannel
    rcases hchannel with rfl | rfl | rfl <;> rfl
  · have hmixed {c0 c1 : UInt8} (hc0 : c0.toNat < 32) (hc1 : c1.toNat < 32) :=
      rampChannel_eq_ramp hx hxw hwide (by omega) hc0 hc1
    have hr := hmixed hleft.r hright.r
    have hg := hmixed hleft.g hright.g
    have hb := hmixed hleft.b hright.b
    have hcolor : color = ⟨rampChannel left.r right.r (coordWord x) (width - 1),
        rampChannel left.g right.g (coordWord x) (width - 1),
        rampChannel left.b right.b (coordWord x) (width - 1), true⟩ := by
      have hnarrow : ¬ width ≤ 1 := fun h ↦ by
        have hle := UInt32.le_iff_toNat_le.1 h
        have hone : (1 : UInt32).toNat = 1 := rfl
        omega
      show Color.ofPacked (rampColor left right (coordWord x) width) = _
      rw [rampColor, if_neg hnarrow]
      exact Color.ofPacked_toPacked ⟨hr.2, hg.2, hb.2⟩
    rw [hcolor]
    refine ⟨rfl, fun channel hchannel ↦ ?_⟩
    simp only [List.mem_cons, List.not_mem_nil, or_false] at hchannel
    rcases hchannel with rfl | rfl | rfl
    · exact hr.1
    · exact hg.1
    · exact hb.1

end

/-! ## Draws -/

section

variable {fb : Framebuffer} {st : RenderState} {m : Rdram} {x y : Int}

/-- A clamped scissor shows what the scissor shows of the framebuffer. -/
theorem Scissor.contains_clamped (hfb : fb.Signed) (r : Scissor) :
    (r.clamped fb.width fb.height).contains x y = true ↔
      fb.contains x y = true ∧ r.contains x y = true := by
  have hw := toInt_toInt32_of_lt hfb.width_lt
  have hh := toInt_toInt32_of_lt hfb.height_lt
  simp only [contains_eq_true, Framebuffer.contains, inExtent_eq_true, clamped,
    toInt_clampTo (show 0 ≤ fb.width.toInt32.toInt by omega),
    toInt_clampTo (show 0 ≤ fb.height.toInt32.toInt by omega), hw, hh]
  omega

/-- A gradient has one fragment on each pixel of the scissor, with the color of the column. -/
theorem plotsOnce_gradientFragments (left right : UInt16) :
    PlotsOnce fb { st with blend := .off } (gradientFragments fb st left right) fun x y ↦
      some ⟨x, y, rampColor (Color.ofPacked left) (Color.ofPacked right) (coordWord x) fb.width,
        false, none⟩ := by
  refine ⟨fun f hf ↦ ?_, fun {x y} _ hscissor ↦ ?_⟩
  · obtain ⟨p, -, he⟩ := List.mem_filterMap.1 hf
    cases he
    rfl
  · have hmem : (x, y) ∈ st.scissor.region.columnMajor :=
      Region.mem_columnMajor.2 (Scissor.contains_eq_true.1 hscissor)
    refine (filter_isAt_filterMap (Region.nodup_columnMajor _) (fun p f hf ↦ ?_) x y).trans
      (if_pos hmem)
    cases hf
    exact ⟨rfl, rfl⟩

/-- A pixel of the scissor gets the color of its column, whatever the blend mode is. -/
theorem read16_drawGradient (hscissor : st.scissor.Inside fb) (hfb : fb.Separate)
    (hxy : st.scissor.contains x y = true) (hfits : m.Fits (fb.addressOf x y) 2)
    (left right : UInt16) :
    Memory.read16 (drawGradient fb st m left right) (fb.addressOf x y) =
      .ok (rampColor (Color.ofPacked left) (Color.ofPacked right) (coordWord x) fb.width) := by
  rw [drawGradient_eq_writeAll hscissor]
  exact (plotsOnce_gradientFragments left right).read16_writeAll hfb (hscissor x y hxy) hxy hfits

/-- What is shown of a pixel of the scissor: each channel is that of the ramp. -/
theorem channels_drawGradient (hscissor : st.scissor.Inside fb) (hfb : fb.Separate)
    (hwide : fb.width.toNat ≤ 2 ^ 27) (hxy : st.scissor.contains x y = true)
    (hfits : m.Fits (fb.addressOf x y) 2) (left right : UInt16) :
    let drawn := drawGradient fb st m left right
    let color := Color.ofPacked (Memory.halfOr 0 drawn (fb.addressOf x y))
    color.a = true ∧ ∀ channel ∈ [Color.r, Color.g, Color.b], ((channel color).toNat : Int) =
      ramp (channel (.ofPacked left)).toNat (channel (.ofPacked right)).toNat x fb.width.toNat := by
  intro drawn color
  obtain ⟨hx, -, hxw, -⟩ := inExtent_eq_true.1 (hscissor x y hxy)
  have hread : Memory.read16 drawn (fb.addressOf x y) = _ :=
    read16_drawGradient hscissor hfb hxy hfits left right
  have hcolor : color = Color.ofPacked
      (rampColor (Color.ofPacked left) (Color.ofPacked right) (coordWord x) fb.width) := by
    refine congrArg Color.ofPacked ?_
    rw [Memory.halfOr, hread]
  rw [hcolor]
  exact ofPacked_rampColor hx hxw hwide (Color.isFiveBit_ofPacked left)
    (Color.isFiveBit_ofPacked right)

theorem frame_drawGradient_scissor (hscissor : st.scissor.Inside fb) (m : Rdram)
    (left right : UInt16) :
    Frame (fun i ↦ ∃ x y, st.scissor.contains x y = true ∧ InHalf (fb.addressOf x y) i) m
      (drawGradient fb st m left right) := by
  rw [drawGradient_eq_writeAll hscissor]
  refine ((plotsOnce_gradientFragments left right).frame_writeAll m).mono ?_
  rintro i ⟨x, y, -, hxy, -, hi⟩
  exact ⟨x, y, hxy, hi⟩

/-- The sides of a framebuffer that is not too wide and has separate pixels are signed words. -/
theorem Framebuffer.Separate.signed_of_width (h : fb.Separate) (hwidth : 1 ≤ fb.width.toNat)
    (hwide : fb.width.toNat ≤ 2 ^ 27) : fb.Signed := by
  by_cases hheight : fb.height.toNat = 0
  · exact ⟨by omega, by omega⟩
  · exact h.signed (x := 0) (y := 0) (inExtent_eq_true.2 (by omega))

/-- **A gradient is a correctly rounded ramp over the framebuffer.**  Whatever scissor is asked for,
each pixel that it shows of the framebuffer is opaque and has in each channel the mixture of its
column, rounded to nearest: the left value in the first column, the right one in the last, unless
there is one column only, a value between the two elsewhere, and never turning back.  All values on
the way fit in their words, and no other byte of memory changes. -/
theorem drawGradient_ramp (r : Scissor) (left right : UInt16) (hwidth : 1 ≤ fb.width.toNat)
    (hwide : fb.width.toNat ≤ 2 ^ 27) (hfb : fb.Separate)
    (hfits : ∀ {x y : Int}, fb.contains x y = true → m.Fits (fb.addressOf x y) 2) :
    let width : Int := fb.width.toNat
    let drawn := drawGradient fb (st.withScissor (r.clamped fb.width fb.height)) m left right
    let shown (x y : Int) : Color := Color.ofPacked (Memory.halfOr 0 drawn (fb.addressOf x y))
    let Painted (x y : Int) : Prop := fb.contains x y = true ∧ r.contains x y = true
    (∀ x y, Painted x y →
      Memory.read16 drawn (fb.addressOf x y) = .ok (shown x y).toPacked ∧ (shown x y).a = true ∧
      ∀ channel ∈ [Color.r, Color.g, Color.b],
        let c0 : Int := (channel (.ofPacked left)).toNat
        let c1 : Int := (channel (.ofPacked right)).toNat
        let value (x y : Int) : Int := (channel (shown x y)).toNat
        value x y = ramp c0 c1 x width ∧
        (1 < width → ∀ n ∈ mixSteps c0 c1 x (width - 1), FitsWord n) ∧
        (x = 0 → value x y = c0) ∧
        (x = width - 1 → value x y = if width = 1 then c0 else c1) ∧
        (min c0 c1 ≤ value x y ∧ value x y ≤ max c0 c1) ∧
        ∀ x' y', Painted x' y' → x ≤ x' →
          (c0 ≤ c1 → value x y ≤ value x' y') ∧ (c1 ≤ c0 → value x' y' ≤ value x y)) ∧
    drawn.size = m.size ∧
    ∀ i, drawn.byte i ≠ m.byte i → ∃ x y, Painted x y ∧ InHalf (fb.addressOf x y) i := by
  intro width drawn shown Painted
  have hsigned := hfb.signed_of_width hwidth hwide
  have hinside : (st.withScissor (r.clamped fb.width fb.height)).scissor.Inside fb :=
    Scissor.inside_clamped hsigned r
  have hpainted (x y : Int) :
      (r.clamped fb.width fb.height).contains x y = true ↔ Painted x y := r.contains_clamped hsigned
  have hframe : Frame _ m drawn := frame_drawGradient_scissor hinside m left right
  have hvalue {x y : Int} (hxy : Painted x y) := channels_drawGradient hinside hfb hwide
    ((hpainted x y).2 hxy) (hfits hxy.1) left right
  refine ⟨fun x y hxy ↦ ⟨?_, (hvalue hxy).1, fun channel hchannel ↦ ?_⟩, hframe.size_eq,
    fun i hi ↦ ?_⟩
  · rw [Color.toPacked_ofPacked]
    exact read16_eq_ok 0 ((fits_congr hframe.size_eq).2 (hfits hxy.1))
  · intro c0 c1 value
    have heq {x y : Int} (hxy : Painted x y) : value x y = ramp c0 c1 x width :=
      (hvalue hxy).2 channel hchannel
    obtain ⟨hx, -, hxw, -⟩ := inExtent_eq_true.1 hxy.1
    refine ⟨heq hxy, fun hspan ↦ ?_, fun hfirst ↦ ?_, fun hlast ↦ ?_, ?_, fun x' y' hxy' hle ↦ ?_⟩
    · obtain ⟨n, hn⟩ := Int.eq_ofNat_of_zero_le hx
      have hlast : width - 1 = (fb.width.toNat - 1 : Nat) := by omega
      rw [hn, hlast]
      exact mixSteps_fit ((Color.isFiveBit_ofPacked left).channel_lt hchannel)
        ((Color.isFiveBit_ofPacked right).channel_lt hchannel) (by omega) (by omega)
    · rw [heq hxy, hfirst, ramp_first _ _ (by omega)]
    · rw [heq hxy, hlast]
      split
      · next h1 => exact ramp_narrow _ _ _ h1
      · next h1 => exact ramp_last _ _ (by omega)
    · rw [heq hxy]
      exact ramp_between hx hxw
    · rw [heq hxy, heq hxy']
      exact ⟨fun hc ↦ ramp_le_ramp (by omega) hc hle, fun hc ↦ ramp_ge_ramp (by omega) hc hle⟩
  · obtain ⟨x, y, hxy, hin⟩ := hframe.mem_of_byte_ne hi
    exact ⟨x, y, (hpainted x y).1 hxy, hin⟩

/-- From black to white over four columns, of which the scissor shows the last three. -/
theorem drawGradient_ramp_clipped :
    let fb : Framebuffer := ⟨0, 4, 4, 2⟩
    let st : RenderState := { RenderState.initial 4 2 with blend := .average }
    let m := Rdram.zeroed 16
    let drawn := drawGradient fb (st.withScissor (.clamped ⟨1, -5, 9, 9⟩ 4 2)) m 0 0xFFFE
    let color := Color.ofPacked (Memory.halfOr 0 drawn (fb.addressOf 2 1))
    color.r = 21 ∧ color.g = 21 ∧ color.b = 21 ∧ color.a = true := by
  intro fb st m drawn color
  have hrows : Rows fb.origin fb.stride fb.height.toNat := ⟨by decide, by decide⟩
  have hfits {x y : Int} (hxy : fb.contains x y = true) : m.Fits (fb.addressOf x y) 2 :=
    Framebuffer.fits_of_rows hrows (by decide) (by rw [Rdram.size_zeroed]; decide) hxy
  obtain ⟨hpixels, -, -⟩ := @drawGradient_ramp fb st m ⟨1, -5, 9, 9⟩ 0 0xFFFE (by decide)
    (by decide) (Framebuffer.separate_of_rows hrows (by decide)) hfits
  obtain ⟨-, halpha, hchannels⟩ := hpixels 2 1 (by decide)
  have hmixed : ramp 0 31 2 4 = (21 : UInt8).toNat := by rw [ramp_eq (by decide)]; rfl
  have hbyte {c : UInt8} (hc : (c.toNat : Int) = (21 : UInt8).toNat) : c = 21 :=
    UInt8.toNat_inj.1 (Int.ofNat.inj hc)
  exact ⟨hbyte ((hchannels Color.r (by simp)).1.trans hmixed),
    hbyte ((hchannels Color.g (by simp)).1.trans hmixed),
    hbyte ((hchannels Color.b (by simp)).1.trans hmixed), halpha⟩

end

end DisplayRaster
