import DisplayRaster.Proofs.Draw.Cells
import DisplayRaster.Proofs.Scanout
import Mathlib.Data.List.TakeWhile

/-!
# Clearing a depth buffer

A clear counts samples from the first address on and the depth test finds a sample by its pixel;
both come to the same addresses (`DepthBuffer.map_sampleAt_pixels`), whatever wraps around.  So a
clear is a sequence of writes at the pixels of the buffer, row by row, that ends at the first sample
that cannot be written (`DepthBuffer.clear_eq_foldl`).

If the samples are all in memory, at places of their own, then the depth test afterwards sees
nothing but the value of the clear and what has been stored since (`DepthBuffer.clear_passes`).
-/

set_option autoImplicit false

namespace DisplayRaster

open Rdram

/-! ## Runs of halfwords -/

section

variable {μ : Type} [Memory μ]

/-- One value written to halfwords one after another, up to the first that cannot be written. -/
def Memory.writeHalves (value : UInt16) : List UInt32 → μ → μ
  | [], m => m
  | addr :: rest, m =>
    match write16 m addr value with
    | ⟨m, none⟩ => writeHalves value rest m
    | ⟨m, some _⟩ => m

theorem DepthBuffer.fillSamples_eq_writeHalves (value : UInt16) (count : Nat) (addr : UInt32)
    (m : μ) : fillSamples value count addr m =
      Memory.writeHalves value ((List.range count).map fun k ↦ addr + UInt32.ofNat (2 * k)) m := by
  induction count generalizing addr m with
  | zero => rfl
  | succ count ih =>
    have hnext (k : Nat) : addr + 2 + UInt32.ofNat (2 * k) = addr + UInt32.ofNat (2 * (k + 1)) := by
      rw [Nat.mul_succ, Nat.add_comm (2 * k), UInt32.ofNat_add, ← UInt32.add_assoc]
      rfl
    have hfirst : addr + UInt32.ofNat (2 * 0) = addr := UInt32.add_zero addr
    have hplaces : (List.range count).map ((fun k ↦ addr + UInt32.ofNat (2 * k)) ∘ Nat.succ) =
        (List.range count).map fun k ↦ addr + 2 + UInt32.ofNat (2 * k) := by
      simp only [hnext]
      rfl
    rw [List.range_succ_eq_map, List.map_cons, List.map_map, hfirst, hplaces, fillSamples,
      Memory.writeHalves]
    rcases Memory.write16 m addr value with ⟨m', _ | fault⟩
    · exact ih _ _
    · rfl

end

namespace Rdram

variable {m : Rdram} {addr : UInt32} {value : UInt16}

/-- A halfword with its new value. -/
def setHalf (value : UInt16) (m : Rdram) (addr : UInt32) : Rdram :=
  (Memory.write16 m addr value).memory

theorem size_setHalf (value : UInt16) (m : Rdram) (addr : UInt32) :
    (setHalf value m addr).size = m.size :=
  size_write16 m addr value

/-- Halfwords are written up to the first that does not fit, and the rest of memory stays. -/
theorem writeHalves_eq_foldl (value : UInt16) (addrs : List UInt32) (m : Rdram) :
    Memory.writeHalves value addrs m =
      (addrs.takeWhile fun addr ↦ m.Fits addr 2).foldl (setHalf value) m := by
  induction addrs generalizing m with
  | nil => rfl
  | cons addr addrs ih =>
    rw [Memory.writeHalves, List.takeWhile_cons]
    by_cases hf : m.Fits addr 2
    · have hrest := ih (setHalf value m addr)
      simp only [fits_congr (size_setHalf value m addr)] at hrest
      rw [write16_eq_of_fits hf, decide_eq_true hf]
      exact hrest
    · rw [write16_eq_of_not_fits hf, decide_eq_false hf]
      rfl

/-- A halfword keeps a value when the value is written elsewhere or once more. -/
theorem halfOr_setHalf (default : UInt16) (hf : m.Fits addr 2) {a : UInt32} (ha : m.Fits a 2)
    (hvalue : Memory.halfOr default m a = value) :
    Memory.halfOr default (setHalf value m addr) a = value := by
  by_cases hplace : physical addr = physical a
  · have hread : Memory.read16 (setHalf value m addr) a =
        Memory.read16 (setHalf value m addr) addr := by
      have hsize := size_setHalf value m addr
      refine (read16_of_fits ((fits_congr hsize).2 ha)).trans ?_
      rw [← hplace]
      exact (read16_of_fits ((fits_congr hsize).2 hf)).symm
    rw [Memory.halfOr, hread]
    exact halfOr_write16 default hf value
  · refine (halfOr_congr default (size_setHalf value m addr) fun i hi ↦ ?_).trans hvalue
    have hframe : Frame (InHalf addr) m (setHalf value m addr) :=
      Frame.write16 m value fun _ hj ↦ hj
    exact hframe.byte_eq i fun hi' ↦ not_inHalf_of_ne hf.aligned ha.aligned hplace hi' hi

/-- Halfwords that were all written have the value, also where one of them was written twice. -/
theorem halfOr_foldl_setHalf (default : UInt16) {addrs : List UInt32}
    (hfits : ∀ addr ∈ addrs, m.Fits addr 2) {a : UInt32} (ha : m.Fits a 2)
    (hvalue : a ∈ addrs ∨ Memory.halfOr default m a = value) :
    Memory.halfOr default (addrs.foldl (setHalf value) m) a = value := by
  induction addrs generalizing m with
  | nil => exact hvalue.resolve_left List.not_mem_nil
  | cons addr addrs ih =>
    have hf : m.Fits addr 2 := hfits addr (by simp)
    have hsize := size_setHalf value m addr
    refine ih (fun b hb ↦ (fits_congr hsize).2 (hfits b (by simp [hb])))
      ((fits_congr hsize).2 ha) ?_
    rcases hvalue with hmem | hvalue
    · rcases List.mem_cons.1 hmem with rfl | hmem
      · exact .inr (halfOr_write16 default hf value)
      · exact .inl hmem
    · exact .inr (halfOr_setHalf default hf ha hvalue)

end Rdram

namespace DepthBuffer

variable {z : DepthBuffer} {m : Rdram} {value : UInt16}

/-! ## Samples in the order of a clear -/

/-- The pixels that have a sample, row by row. -/
def pixels (z : DepthBuffer) : List (Int × Int) :=
  Region.rowMajor ⟨0, 0, z.width.toNat, z.height.toNat⟩

theorem mem_pixels {x y : Int} : (x, y) ∈ z.pixels ↔ z.contains x y = true := by
  simp only [pixels, Region.mem_rowMajor, Region.Contains, contains, inExtent_eq_true]
  omega

/-- The address of the sample of a pixel. -/
def sampleAt (z : DepthBuffer) (p : Int × Int) : UInt32 := z.addressOf p.1 p.2

/-- **Counting samples and finding them by their pixels is the same.** -/
theorem map_sampleAt_pixels (z : DepthBuffer) :
    z.pixels.map z.sampleAt =
      (List.range z.sampleCount).map fun k ↦ z.addr + UInt32.ofNat (2 * k) := by
  have hlength : z.pixels.length = z.sampleCount := by
    rw [pixels, Region.length_rowMajor, sampleCount]
    simp [Region.columns, Region.rows]
  refine List.ext_getElem? fun k ↦ ?_
  rw [List.getElem?_map, List.getElem?_map]
  by_cases hk : k < z.sampleCount
  · have hwidth : 0 < z.width.toNat := Nat.pos_of_mul_pos_right (Nat.zero_lt_of_lt hk)
    have hplace := Nat.div_add_mod k z.width.toNat
    have hx : k % z.width.toNat < z.width.toNat := Nat.mod_lt _ hwidth
    have hy : k / z.width.toNat < z.height.toNat := Nat.div_lt_of_lt_mul hk
    have hpixel : z.pixels[k]? = some (↑(k % z.width.toNat), ↑(k / z.width.toNat)) := by
      have hrow := Region.getElem?_rowMajor ⟨0, 0, z.width.toNat, z.height.toNat⟩
        (x := k % z.width.toNat) (y := k / z.width.toNat) (by simpa [Region.columns] using hx)
        (by simpa [Region.rows] using hy)
      simpa [pixels, Region.columns, hplace] using hrow
    rw [hpixel, List.getElem?_range hk, Option.map_some, Option.map_some, sampleAt,
      addressOf_natCast, Nat.mul_comm (k / z.width.toNat), hplace]
  · rw [List.getElem?_eq_none (by omega), List.getElem?_eq_none (by simpa using hk)]
    rfl

/-! ## Clears -/

/-- The samples in memory before the first one, row by row, that is not. -/
def reached (z : DepthBuffer) (m : Rdram) : List (Int × Int) :=
  z.pixels.takeWhile fun p ↦ m.Fits (z.sampleAt p) 2

/-- **A clear writes the samples row by row**, in whatever kind of memory. -/
theorem clear_eq_writeHalves {μ : Type} [Memory μ] (z : DepthBuffer) (m : μ) (value : UInt16) :
    z.clear m value = Memory.writeHalves value (z.pixels.map z.sampleAt) m := by
  rw [clear, fillSamples_eq_writeHalves, map_sampleAt_pixels]

theorem clear_eq_foldl (z : DepthBuffer) (m : Rdram) (value : UInt16) :
    z.clear m value = ((z.reached m).map z.sampleAt).foldl (setHalf value) m := by
  rw [clear_eq_writeHalves, writeHalves_eq_foldl, List.takeWhile_map]
  rfl

theorem fits_of_mem_reached {p : Int × Int} (h : p ∈ z.reached m) : m.Fits (z.sampleAt p) 2 :=
  of_decide_eq_true (List.mem_takeWhile_imp (p := fun p ↦ decide (m.Fits (z.sampleAt p) 2)) h)

/-- A clear changes no byte but those of the samples it reaches. -/
theorem frame_clear (z : DepthBuffer) (m : Rdram) (value : UInt16) :
    Frame (fun i ↦ ∃ p ∈ z.reached m, InHalf (z.sampleAt p) i) m (z.clear m value) := by
  rw [clear_eq_foldl]
  refine Frame.foldl (fun m' addr haddr ↦ Frame.write16 m' value fun i hi ↦ ?_) m
  obtain ⟨p, hp, rfl⟩ := List.mem_map.1 haddr
  exact ⟨p, hp, hi⟩

/-- Every sample that a clear reaches has its value. -/
theorem halfOr_clear (default : UInt16) {p : Int × Int} (hp : p ∈ z.reached m) :
    Memory.halfOr default (z.clear m value) (z.sampleAt p) = value := by
  rw [clear_eq_foldl]
  refine halfOr_foldl_setHalf default (fun addr haddr ↦ ?_) (fits_of_mem_reached hp)
    (.inl (List.mem_map_of_mem hp))
  obtain ⟨q, hq, rfl⟩ := List.mem_map.1 haddr
  exact fits_of_mem_reached hq

/-- A clear reaches all samples if they are all in memory. -/
theorem reached_eq_pixels (hfits : ∀ x y, z.contains x y = true → m.Fits (z.addressOf x y) 2) :
    z.reached m = z.pixels := by
  refine List.takeWhile_eq_self_iff.2 fun p hp ↦ decide_eq_true (hfits p.1 p.2 ?_)
  exact mem_pixels.1 hp

/-- After a clear of samples in memory, all of them have its value. -/
theorem stored_clear (hfits : ∀ x y, z.contains x y = true → m.Fits (z.addressOf x y) 2)
    (x y : Int) : z.stored (z.clear m value) x y = if z.contains x y then value else far := by
  rw [stored]
  split
  · next hxy =>
    have hp : (x, y) ∈ z.reached m := by rwa [reached_eq_pixels hfits, mem_pixels]
    have hclear : Memory.halfOr far (z.clear m value) (z.sampleAt (x, y)) = value :=
      halfOr_clear far hp
    exact hclear
  · rfl

/-- **Clears, tests and stores agree on where the samples are.**  A clear writes its value to the
samples in the order of their pixels, up to the first that cannot be written, and changes nothing
else.  If all samples can be written and are at places of their own, then after it a pixel passes
the test iff its depth is nearer than the value, or than any depth outside of the buffer, and a
depth that is stored from then on matters to its own pixel only. -/
theorem clear_passes (z : DepthBuffer) (m : Rdram) (value : UInt16) :
    (∀ {μ : Type} [Memory μ] (m : μ),
      z.clear m value = Memory.writeHalves value (z.pixels.map z.sampleAt) m) ∧
    z.clear m value = ((z.reached m).map z.sampleAt).foldl (setHalf value) m ∧
    Frame (fun i ↦ ∃ p ∈ z.reached m, InHalf (z.sampleAt p) i) m (z.clear m value) ∧
    (∀ p ∈ z.reached m, Memory.read16 (z.clear m value) (z.sampleAt p) = .ok value) ∧
    ((∀ x y, z.contains x y = true → m.Fits (z.addressOf x y) 2) →
      (∀ x y x' y', z.contains x y = true → z.contains x' y' = true →
        physical (z.addressOf x y) = physical (z.addressOf x' y') → x = x' ∧ y = y') →
      (∀ x y depth, z.passes (z.clear m value) x y depth = true ↔
        depth < if z.contains x y then value else 0xFFFF) ∧
      ∀ (m' : Rdram) (x y : Int) (depth : UInt16) (x' y' : Int) (depth' : UInt16),
        ¬ (x = x' ∧ y = y') →
          z.passes (z.store m' x y depth) x' y' depth' = z.passes m' x' y' depth') := by
  refine ⟨fun m ↦ z.clear_eq_writeHalves m value, z.clear_eq_foldl m value, z.frame_clear m value,
    fun p hp ↦ ?_, fun hfits hplaces ↦ ⟨fun x y depth ↦ ?_, ?_⟩⟩
  · have hf := (fits_congr (z.frame_clear m value).size_eq).2 (fits_of_mem_reached hp)
    rw [read16_eq_ok far hf, halfOr_clear far hp]
  · rw [passes, stored_clear hfits, decide_eq_true_iff]
    rfl
  · intro m' x y depth x' y' depth' hne
    rw [passes, passes, stored_store_of_ne (fun hxy ↦ (hfits _ _ hxy).aligned) m' depth
      fun hxy hxy' he ↦ hne (hplaces x y x' y' hxy hxy' he)]

/-- A buffer of which all rows are in memory, and the same buffer in less memory, which ends before
its last sample. -/
theorem clear_passes_small :
    let z : DepthBuffer := ⟨2, 2, 2⟩
    let m := z.clear (Rdram.zeroed 10) 7
    z.passes m 1 1 6 = true ∧ z.passes m 1 1 7 = false ∧ z.passes m 2 1 7 = true ∧
      z.passes (z.store m 0 1 3) 1 0 6 = true ∧
      (z.clear (Rdram.zeroed 9) 7).bytes.toList = [0, 0, 0, 7, 0, 7, 0, 7, 0] := by
  intro z m
  have hrows : Rows z.addr z.width z.height.toNat := ⟨by decide, by decide⟩
  obtain ⟨-, -, -, -, hpasses⟩ := z.clear_passes (Rdram.zeroed 10) 7
  obtain ⟨htest, hstore⟩ := hpasses (fun _ _ ↦ fits_of_rows hrows (by decide))
    fun _ _ _ _ ↦ (separate_of_rows hrows).eq_of_place_eq
  refine ⟨(htest 1 1 6).2 (by decide), ?_, (htest 2 1 7).2 (by decide), ?_, by decide +kernel⟩
  · rw [← Bool.not_eq_true, htest]
    decide
  · rw [hstore m 0 1 3 1 0 6 (by decide), htest]
    decide

end DepthBuffer

end DisplayRaster
