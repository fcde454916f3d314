import DisplayRaster.Proofs.Draw.Targets
import DisplayRaster.Proofs.Memory.Halfwords

/-!
# Places of pixels and samples

Addresses wrap around and memory has mirrors, so a framebuffer can be laid out in such a way that
two of its pixels are the same halfword of memory.  `Framebuffer.Separate` says that this does not
happen: each pixel is at an even address and at a place of its own.  `Separate` says the same of a
framebuffer and a depth buffer together.  A write to the cell of one pixel, its halfword and its
sample, then leaves the cells of all other pixels alone.

The usual layouts are separate: rows that do not overlap, in less memory than a mirror has
(`Framebuffer.separate_of_rows`, `DepthBuffer.separate_of_rows`).
-/

set_option autoImplicit false

namespace DisplayRaster

open Rdram

/-! ## Places of their own -/

/-- Every pixel is at an even address and shares its place in memory with no other pixel. -/
structure Framebuffer.Separate (fb : Framebuffer) : Prop where
  even : ∀ {x y : Int}, fb.contains x y = true → (fb.addressOf x y).toNat % 2 = 0
  eq_of_place_eq : ∀ {x y x' y' : Int}, fb.contains x y = true → fb.contains x' y' = true →
    physical (fb.addressOf x y) = physical (fb.addressOf x' y') → x = x' ∧ y = y'

/-- Every sample is at an even address and shares its place in memory with no other sample. -/
structure DepthBuffer.Separate (z : DepthBuffer) : Prop where
  even : ∀ {x y : Int}, z.contains x y = true → (z.addressOf x y).toNat % 2 = 0
  eq_of_place_eq : ∀ {x y x' y' : Int}, z.contains x y = true → z.contains x' y' = true →
    physical (z.addressOf x y) = physical (z.addressOf x' y') → x = x' ∧ y = y'

/-- Pixels and samples are all at places of their own. -/
structure Separate (fb : Framebuffer) (z : DepthBuffer) : Prop where
  pixels : fb.Separate
  samples : z.Separate
  apart : ∀ {x y x' y' : Int}, fb.contains x y = true → z.contains x' y' = true →
    physical (fb.addressOf x y) ≠ physical (z.addressOf x' y')

theorem DepthBuffer.contains_unset (x y : Int) : unset.contains x y = false := by
  rw [← Bool.not_eq_true, contains, inExtent_eq_true]
  rintro ⟨hx, -, hxw, -⟩
  have h0 : unset.width.toNat = 0 := rfl
  omega

/-- Without a depth buffer only the pixels count. -/
theorem separate_unset {fb : Framebuffer} (h : fb.Separate) : Separate fb .unset where
  pixels := h
  samples := ⟨fun hc ↦ by simp [DepthBuffer.contains_unset] at hc,
    fun hc ↦ by simp [DepthBuffer.contains_unset] at hc⟩
  apart _ hc := by simp [DepthBuffer.contains_unset] at hc

/-! ## Cells -/

/-- The bytes of a pixel and of its sample, if it has one. -/
def InCell (fb : Framebuffer) (z : DepthBuffer) (x y : Int) (i : Nat) : Prop :=
  InHalf (fb.addressOf x y) i ∨ z.contains x y = true ∧ InHalf (z.addressOf x y) i

section

variable {fb : Framebuffer} {z : DepthBuffer} (h : Separate fb z) {x y x' y' : Int} {i : Nat}

include h

/-- A pixel has no byte in the cell of another. -/
theorem Separate.pixel_not_inCell (hxy : fb.contains x y = true) (hxy' : fb.contains x' y' = true)
    (hne : ¬ (x' = x ∧ y' = y)) (hi : InHalf (fb.addressOf x y) i) : ¬ InCell fb z x' y' i := by
  rintro (hi' | ⟨hz, hi'⟩)
  · refine not_inHalf_of_ne (h.pixels.even hxy) (h.pixels.even hxy') (fun he ↦ hne ?_) hi hi'
    exact h.pixels.eq_of_place_eq hxy' hxy he.symm
  · exact not_inHalf_of_ne (h.pixels.even hxy) (h.samples.even hz) (h.apart hxy hz) hi hi'

/-- A sample has no byte in the cell of another pixel. -/
theorem Separate.sample_not_inCell (hxy : z.contains x y = true) (hxy' : fb.contains x' y' = true)
    (hne : ¬ (x' = x ∧ y' = y)) (hi : InHalf (z.addressOf x y) i) : ¬ InCell fb z x' y' i := by
  rintro (hi' | ⟨hz, hi'⟩)
  · exact not_inHalf_of_ne (h.samples.even hxy) (h.pixels.even hxy') (h.apart hxy' hxy).symm hi hi'
  · refine not_inHalf_of_ne (h.samples.even hxy) (h.samples.even hz) (fun he ↦ hne ?_) hi hi'
    exact h.samples.eq_of_place_eq hz hxy he.symm

theorem Separate.pixel_not_inSample (hxy : fb.contains x y = true) (hz : z.contains x' y' = true)
    (hi : InHalf (fb.addressOf x y) i) : ¬ InHalf (z.addressOf x' y') i :=
  not_inHalf_of_ne (h.pixels.even hxy) (h.samples.even hz) (h.apart hxy hz) hi

end

/-! ## Sides -/

/-- The sides of a framebuffer with separate pixels are signed words: `2 ^ 28` pixels further on, in
either direction, memory comes back to the same place. -/
theorem Framebuffer.Separate.signed {fb : Framebuffer} (h : fb.Separate) {x y : Int}
    (hxy : fb.contains x y = true) : fb.Signed := by
  simp only [contains, inExtent_eq_true] at hxy
  have h0 : coordWord 0 = 0 := rfl
  have hfar : coordWord 268435456 = 268435456 := rfl
  constructor
  · by_contra hw
    have hplace : physical (fb.addressOf 268435456 0) = physical (fb.addressOf 0 0) := by
      simp only [addressOf, h0, hfar, physical_eq_mod, UInt32.toNat_add, UInt32.toNat_mul,
        UInt32.reduceToNat]
      omega
    have heq := h.eq_of_place_eq (inExtent_eq_true.2 (by omega)) (inExtent_eq_true.2 (by omega))
      hplace
    omega
  · by_contra hh
    have hplace : physical (fb.addressOf 0 268435456) = physical (fb.addressOf 0 0) := by
      simp only [addressOf, h0, hfar, physical_eq_mod, UInt32.toNat_add, UInt32.toNat_mul,
        UInt32.reduceToNat]
      omega
    have heq := h.eq_of_place_eq (inExtent_eq_true.2 (by omega)) (inExtent_eq_true.2 (by omega))
      hplace
    omega

/-! ## Layouts in rows -/

/-- The address of column `x` of row `y`, for rows that are `stride` halfwords long. -/
def rowAddress (base stride : UInt32) (x y : Nat) : UInt32 :=
  base + (UInt32.ofNat y * stride + UInt32.ofNat x) * 2

theorem physical_rowAddress {base stride : UInt32} {x y : Nat}
    (hroom : physical base + 2 * (y * stride.toNat + x) < 2 ^ 29) :
    physical (rowAddress base stride x y) = physical base + 2 * (y * stride.toNat + x) := by
  rw [← physical_add hroom, rowAddress, UInt32.ofNat_mul, UInt32.ofNat_add, UInt32.ofNat_mul,
    UInt32.ofNat_toNat, UInt32.mul_comm _ 2]
  rfl

theorem rowAddress_even {base stride : UInt32} (hbase : base.toNat % 2 = 0) (x y : Nat) :
    (rowAddress base stride x y).toNat % 2 = 0 := by
  rw [rowAddress, UInt32.toNat_add, UInt32.toNat_mul, show (2 : UInt32).toNat = 2 from rfl]
  omega

/-- The places of `height` rows of `stride` halfwords. -/
structure Rows (base stride : UInt32) (height : Nat) : Prop where
  even : base.toNat % 2 = 0
  room : physical base + 2 * (height * stride.toNat) ≤ 2 ^ 29

namespace Rows

variable {base stride : UInt32} {height : Nat} {x y x' y' : Nat}

theorem index_lt (hx : x < stride.toNat) (hy : y < height) :
    y * stride.toNat + x < height * stride.toNat :=
  calc y * stride.toNat + x < (y + 1) * stride.toNat := by rw [Nat.succ_mul]; omega
    _ ≤ height * stride.toNat := Nat.mul_le_mul_right _ hy

theorem physical_eq (h : Rows base stride height) (hx : x < stride.toNat) (hy : y < height) :
    physical (rowAddress base stride x y) = physical base + 2 * (y * stride.toNat + x) := by
  have hlt := index_lt hx hy
  have hroom := h.room
  exact physical_rowAddress (by omega)

/-- The rows take up no more than their room. -/
theorem bounds_of_inHalf (h : Rows base stride height) (hx : x < stride.toNat) (hy : y < height)
    {i : Nat} (hi : InHalf (rowAddress base stride x y) i) :
    physical base ≤ i ∧ i < physical base + 2 * (height * stride.toNat) := by
  have hlt := index_lt hx hy
  have hplace := h.physical_eq hx hy
  rcases hi with rfl | rfl <;> omega

/-- A place in a row determines the row and the column. -/
theorem eq_of_place_eq (h : Rows base stride height) (hx : x < stride.toNat) (hy : y < height)
    (hx' : x' < stride.toNat) (hy' : y' < height)
    (he : physical (rowAddress base stride x y) = physical (rowAddress base stride x' y')) :
    x = x' ∧ y = y' := by
  rw [h.physical_eq hx hy, h.physical_eq hx' hy'] at he
  have he : stride.toNat * y + x = stride.toNat * y' + x' := by
    rw [Nat.mul_comm _ y, Nat.mul_comm _ y']
    omega
  have hdiv := congrArg (· / stride.toNat) he
  simp only [Nat.mul_add_div (show stride.toNat > 0 by omega), Nat.div_eq_of_lt hx,
    Nat.div_eq_of_lt hx'] at hdiv
  obtain rfl : y = y' := by omega
  exact ⟨by omega, rfl⟩

end Rows

/-- Rows that are at least as long as the framebuffer is wide keep its pixels apart. -/
theorem Framebuffer.separate_of_rows {fb : Framebuffer}
    (h : Rows fb.origin fb.stride fb.height.toNat) (hwidth : fb.width.toNat ≤ fb.stride.toNat) :
    fb.Separate := by
  have haddr (x y : Nat) : fb.addressOf x y = rowAddress fb.origin fb.stride x y := rfl
  constructor
  · intro x y hxy
    simp only [contains, inExtent_eq_true] at hxy
    obtain ⟨x, rfl⟩ := Int.eq_ofNat_of_zero_le hxy.1
    obtain ⟨y, rfl⟩ := Int.eq_ofNat_of_zero_le hxy.2.1
    exact rowAddress_even h.even x y
  · intro x y x' y' hxy hxy' he
    simp only [contains, inExtent_eq_true] at hxy hxy'
    obtain ⟨x, rfl⟩ := Int.eq_ofNat_of_zero_le hxy.1
    obtain ⟨y, rfl⟩ := Int.eq_ofNat_of_zero_le hxy.2.1
    obtain ⟨x', rfl⟩ := Int.eq_ofNat_of_zero_le hxy'.1
    obtain ⟨y', rfl⟩ := Int.eq_ofNat_of_zero_le hxy'.2.1
    rw [haddr, haddr] at he
    have heq := h.eq_of_place_eq (by omega) (by omega) (by omega) (by omega) he
    omega

/-- The rows of a depth buffer follow each other without a gap and keep its samples apart. -/
theorem DepthBuffer.separate_of_rows {z : DepthBuffer} (h : Rows z.addr z.width z.height.toNat) :
    z.Separate :=
  have hfb : (Framebuffer.mk z.addr z.width z.width z.height).Separate :=
    Framebuffer.separate_of_rows h (Nat.le_refl _)
  ⟨hfb.even, hfb.eq_of_place_eq⟩

/-- A framebuffer in rows that end in memory has all its pixels there. -/
theorem Framebuffer.fits_of_rows {fb : Framebuffer} {m : Rdram}
    (h : Rows fb.origin fb.stride fb.height.toNat) (hwidth : fb.width.toNat ≤ fb.stride.toNat)
    (hroom : physical fb.origin + 2 * (fb.height.toNat * fb.stride.toNat) ≤ m.size) {x y : Int}
    (hxy : fb.contains x y = true) : m.Fits (fb.addressOf x y) 2 := by
  refine ⟨(separate_of_rows h hwidth).even hxy, ?_⟩
  simp only [contains, inExtent_eq_true] at hxy
  obtain ⟨x, rfl⟩ := Int.eq_ofNat_of_zero_le hxy.1
  obtain ⟨y, rfl⟩ := Int.eq_ofNat_of_zero_le hxy.2.1
  have hlast := (h.bounds_of_inHalf (x := x) (y := y) (by omega) (by omega) (.inr rfl)).2
  exact Nat.le_trans hlast hroom

theorem DepthBuffer.fits_of_rows {z : DepthBuffer} {m : Rdram}
    (h : Rows z.addr z.width z.height.toNat)
    (hroom : physical z.addr + 2 * (z.height.toNat * z.width.toNat) ≤ m.size) {x y : Int}
    (hxy : z.contains x y = true) : m.Fits (z.addressOf x y) 2 :=
  @Framebuffer.fits_of_rows ⟨z.addr, z.width, z.width, z.height⟩ m h (Nat.le_refl _) hroom x y hxy

/-- The bytes of a framebuffer in rows. -/
theorem Framebuffer.Owns.bounds {fb : Framebuffer} {i : Nat} (hi : fb.Owns i)
    (h : Rows fb.origin fb.stride fb.height.toNat) (hwidth : fb.width.toNat ≤ fb.stride.toNat) :
    physical fb.origin ≤ i ∧ i < physical fb.origin + 2 * (fb.height.toNat * fb.stride.toNat) := by
  obtain ⟨x, y, hxy, hi⟩ := hi
  simp only [contains, inExtent_eq_true] at hxy
  obtain ⟨x, rfl⟩ := Int.eq_ofNat_of_zero_le hxy.1
  obtain ⟨y, rfl⟩ := Int.eq_ofNat_of_zero_le hxy.2.1
  exact h.bounds_of_inHalf (by omega) (by omega) hi

/-- The bytes of a depth buffer. -/
theorem DepthBuffer.Owns.bounds {z : DepthBuffer} {i : Nat} (hi : z.Owns i)
    (h : Rows z.addr z.width z.height.toNat) :
    physical z.addr ≤ i ∧ i < physical z.addr + 2 * (z.height.toNat * z.width.toNat) := by
  obtain ⟨k, hk, hi⟩ := hi
  have hroom := h.room
  rw [sampleCount, Nat.mul_comm] at hk
  have hplace := physical_add (show physical z.addr + 2 * k < 2 ^ 29 by omega)
  rcases hi with rfl | rfl <;> omega

/-- A framebuffer below a depth buffer. -/
theorem separate_of_le {fb : Framebuffer} {z : DepthBuffer}
    (hfb : Rows fb.origin fb.stride fb.height.toNat) (hwidth : fb.width.toNat ≤ fb.stride.toNat)
    (hz : Rows z.addr z.width z.height.toNat)
    (hle : physical fb.origin + 2 * (fb.height.toNat * fb.stride.toNat) ≤ physical z.addr) :
    Separate fb z where
  pixels := Framebuffer.separate_of_rows hfb hwidth
  samples := DepthBuffer.separate_of_rows hz
  apart := by
    intro x y x' y' hxy hxy'
    simp only [Framebuffer.contains, DepthBuffer.contains, inExtent_eq_true] at hxy hxy'
    obtain ⟨x, rfl⟩ := Int.eq_ofNat_of_zero_le hxy.1
    obtain ⟨y, rfl⟩ := Int.eq_ofNat_of_zero_le hxy.2.1
    obtain ⟨x', rfl⟩ := Int.eq_ofNat_of_zero_le hxy'.1
    obtain ⟨y', rfl⟩ := Int.eq_ofNat_of_zero_le hxy'.2.1
    have hlt : y * fb.stride.toNat + x < fb.height.toNat * fb.stride.toNat :=
      Rows.index_lt (by omega) (by omega)
    have hp : physical (fb.addressOf x y) = _ := hfb.physical_eq (x := x) (by omega) (by omega)
    have hq : physical (z.addressOf x' y') = _ := hz.physical_eq (x := x') (by omega) (by omega)
    omega

end DisplayRaster
