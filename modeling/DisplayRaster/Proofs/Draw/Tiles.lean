import DisplayRaster.Proofs.Draw.Plots

/-!
# Tile grids are periodic

A tile grid is drawn rectangle by rectangle, from one period left of the framebuffer on.  A pixel
lies in the period `(x - offset) / period` of its row and `y / period` of its column, and only the
tile of these two numbers can reach it (`filter_isAt_tileFragments`).  So no pixel is left out and
none is drawn twice, wherever the grid starts: the pixel shows the texel at the remainders of its
coordinates if the tile has such a texel, and lies between the tiles otherwise
(`drawTiles_periodic`).
-/

set_option autoImplicit false

namespace DisplayRaster

open Rdram

/-! ## Steps of a period -/

/-- Where at most one element contributes, it contributes everything. -/
theorem flatMap_eq_of_unique {α β : Type} {l : List α} (hl : l.Nodup) {k : α} (hk : k ∈ l)
    {g : α → List β} (hg : ∀ a ∈ l, a ≠ k → g a = []) : l.flatMap g = g k := by
  obtain ⟨before, after, rfl⟩ := List.append_of_mem hk
  have hbefore : ∀ a ∈ before, g a = [] := fun a ha ↦
    hg a (by simp [ha]) fun he ↦ (List.nodup_append.1 hl).2.2 a ha k (by simp) he
  have hafter : ∀ a ∈ after, g a = [] := fun a ha ↦
    hg a (by simp [ha]) fun he ↦ (List.nodup_cons.1 (List.nodup_append.1 hl).2.1).1 (he ▸ ha)
  rw [List.flatMap_append, List.flatMap_cons, List.flatMap_eq_nil_iff.2 hbefore,
    List.flatMap_eq_nil_iff.2 hafter, List.nil_append, List.append_nil]

section

variable {start limit period size x k : Int} (hp : 0 < period)

include hp

/-- The steps that are counted are those that start below the limit. -/
theorem lt_stepCount_iff (hk : 0 ≤ k) :
    k < stepCount start limit period ↔ start + k * period < limit := by
  have hstep : k + 1 ≤ (limit - start + period - 1) / period ↔
      (k + 1) * period ≤ limit - start + period - 1 := Int.le_ediv_iff_mul_le hp
  rw [Int.add_mul, Int.one_mul] at hstep
  rw [stepCount]
  omega

/-- The step that a place from the start on lies in is counted. -/
theorem ediv_mem_rangeList (hstart : start ≤ x) (hlimit : x < limit) :
    (x - start) / period ∈ rangeList (stepCount start limit period) 0 := by
  have h0 : 0 ≤ (x - start) / period := Int.ediv_nonneg (by omega) (by omega)
  have hle : (x - start) / period * period ≤ x - start := Int.ediv_mul_le _ (by omega)
  rw [mem_rangeList, Int.zero_add, lt_stepCount_iff hp h0]
  omega

/-- A place in a tile lies in the step of the tile. -/
theorem eq_ediv_of_mem (hsize : size ≤ period) (hle : start + k * period ≤ x)
    (hlt : x < start + k * period + size) : k = (x - start) / period := by
  refine Int.le_antisymm ((Int.le_ediv_iff_mul_le hp).2 (by omega)) ?_
  refine Int.lt_add_one_iff.1 ((Int.ediv_lt_iff_lt_mul hp).2 ?_)
  rw [Int.add_mul, Int.one_mul]
  omega

end

/-- A step starts as far before a place as the remainder says. -/
theorem add_ediv_mul (start period x : Int) :
    start + (x - start) / period * period = x - (x - start) % period := by
  have h := Int.emod_add_ediv_mul (x - start) period
  omega

/-- The grid is shifted by its offset, up to whole periods. -/
theorem sub_first_emod (x offset period : Int) :
    (x - (offset % period - period)) % period = (x - offset) % period := by
  have hshift : x - (offset % period - period) = x - offset % period + period := by omega
  rw [hshift, Int.add_emod_right, Int.sub_emod, Int.emod_emod, ← Int.sub_emod]

/-! ## Fragments -/

section

variable {fb : Framebuffer} {st : RenderState} {m : Rdram} {addr : UInt32} {size spacing : UInt8}
  {offset : UInt16} {x y : Int}

theorem depth_of_mem_rectFragments {source : TexelSource} {f : Fragment}
    (hf : f ∈ rectFragments st m source x y) : f.depth = none := by
  rw [rectFragments] at hf
  split at hf
  · obtain ⟨p, -, he⟩ := List.mem_filterMap.1 hf
    cases he
    rfl
  · exact absurd hf List.not_mem_nil

theorem depth_of_mem_tileFragments {f : Fragment}
    (hf : f ∈ tileFragments fb st m addr size spacing offset) : f.depth = none := by
  rw [tileFragments] at hf
  split at hf
  · exact absurd hf List.not_mem_nil
  · obtain ⟨row, -, hf⟩ := List.mem_flatMap.1 hf
    obtain ⟨column, -, hf⟩ := List.mem_flatMap.1 hf
    exact depth_of_mem_rectFragments hf

/-- A texel of a tile. -/
def tileTexel (m : Rdram) (addr : UInt32) (size : UInt8) (u v : Int) : UInt16 :=
  Memory.halfOr 0 m (addr + UInt32.ofNat (2 * (v.toNat * size.toNat + u.toNat)))

theorem texelAt_tileSource (u v : Int) :
    texelAt st m (tileSource addr size) u.toNat v.toNat = tileTexel m addr size u v := by
  show Memory.halfOr 0 m (addr + (Texture.packed addr _ _).texelIndex _ _ * 2) = _
  rw [Texture.texelIndex_eq, UInt32.mul_comm, tileTexel, UInt32.ofNat_mul 2]
  rfl

/-- The fragment of a grid on the pixel `(x, y)`, or none if the pixel lies between the tiles. -/
def tilePlot (m : Rdram) (addr : UInt32) (size spacing : UInt8) (offset : UInt16) (x y : Int) :
    Option Fragment :=
  let period : Int := size.toNat + spacing.toNat
  let u := (x - offset.toNat) % period
  let v := y % period
  if u < size.toNat ∧ v < size.toNat then some ⟨x, y, tileTexel m addr size u v, true, none⟩
  else none

/-- A tile at `(left, top)` has one fragment on each of its pixels in the scissor. -/
theorem filter_isAt_tile (hsize : size ≠ 0) (hcombine : st.combine = .texture)
    (hscissor : st.scissor.contains x y = true) (left top : Int) :
    (rectFragments st m (tileSource addr size) left top).filter (Fragment.isAt x y) =
      if (left ≤ x ∧ x < left + size.toNat) ∧ top ≤ y ∧ y < top + size.toNat then
        [⟨x, y, tileTexel m addr size (x - left) (y - top), true, none⟩]
      else [] := by
  classical
  have hempty : (tileSource addr size).texture.isEmpty = false := by
    have hne : size.toUInt32 ≠ 0 := fun h ↦ hsize (UInt8.toNat_inj.1 (congrArg UInt32.toNat h))
    simp [tileSource, Texture.packed, Texture.isEmpty, hne]
  have hchoose : Paint.choose st (some (tileSource addr size)) = some (.texels _) :=
    Paint.choose_texels hcombine hempty fun h ↦ absurd h Bool.false_ne_true
  have hregion : (rectRegion st.scissor (tileSource addr size).texture left top).Contains x y ↔
      (left ≤ x ∧ x < left + size.toNat) ∧ top ≤ y ∧ y < top + size.toNat := by
    simp only [contains_rectRegion, hscissor, and_true, and_assoc]
    exact Iff.rfl
  rw [filter_isAt_rectFragments hchoose]
  refine ite_congr (propext hregion) (fun _ ↦ ?_) fun _ ↦ rfl
  rw [rectFragment, Paint.colorAtTexel, texelAt_tileSource]
  rfl

/-- **A pixel has one fragment of the grid**, or none between the tiles. -/
theorem filter_isAt_tileFragments (hsize : size ≠ 0) (hcombine : st.combine = .texture)
    (hxy : fb.contains x y = true) (hscissor : st.scissor.contains x y = true) :
    (tileFragments fb st m addr size spacing offset).filter (Fragment.isAt x y) =
      (tilePlot m addr size spacing offset x y).toList := by
  have hpos : size.toNat ≠ 0 := fun h ↦ hsize (UInt8.toNat_inj.1 h)
  obtain ⟨hx, hy, hxw, hyh⟩ := inExtent_eq_true.1 hxy
  simp only [tileFragments, if_neg hsize, tilePlot, List.filter_flatMap,
    filter_isAt_tile hsize hcombine hscissor]
  generalize hperiod : (size.toNat : Int) + spacing.toNat = period
  generalize hfirst : (offset.toNat : Int) % period - period = first
  have hp : 0 < period := by omega
  have hle : (size.toNat : Int) ≤ period := by omega
  -- the grid starts left of the framebuffer and at its top
  have hleft : first ≤ x := by
    have hlt : (offset.toNat : Int) % period < period := Int.emod_lt_of_pos _ hp
    omega
  have hcolumn : (x - first) / period ∈ rangeList (stepCount first fb.width.toNat period) 0 :=
    ediv_mem_rangeList hp hleft hxw
  have hrow : (y - 0) / period ∈ rangeList (stepCount 0 fb.height.toNat period) 0 :=
    ediv_mem_rangeList hp hy hyh
  rw [Int.sub_zero] at hrow
  have hu : first + (x - first) / period * period = x - (x - offset.toNat) % period := by
    rw [add_ediv_mul, ← hfirst, sub_first_emod]
  have hv : y / period * period = y - y % period := by
    simpa using add_ediv_mul 0 period y
  -- only the tile of the two quotients can reach the pixel
  rw [flatMap_eq_of_unique (nodup_rangeList _ _) hrow,
    flatMap_eq_of_unique (nodup_rangeList _ _) hcolumn, hu, hv, Int.sub_sub_self, Int.sub_sub_self]
  · by_cases hin : (x - offset.toNat) % period < size.toNat ∧ y % period < size.toNat
    · have hu0 : 0 ≤ (x - offset.toNat) % period := Int.emod_nonneg _ (by omega)
      have hv0 : 0 ≤ y % period := Int.emod_nonneg _ (by omega)
      rw [if_pos (by omega), if_pos hin, Option.toList_some]
    · rw [if_neg (by omega), if_neg hin, Option.toList_none]
  · intro column _ hne
    exact if_neg fun hin ↦ hne (eq_ediv_of_mem hp hle hin.1.1 hin.1.2)
  · intro row _ hne
    refine List.flatMap_eq_nil_iff.2 fun column _ ↦ if_neg fun hin ↦ hne ?_
    have htop : row = (y - 0) / period := eq_ediv_of_mem hp hle (by omega) (by omega)
    rwa [Int.sub_zero] at htop

theorem plotsOnce_tileFragments (hsize : size ≠ 0) (hcombine : st.combine = .texture) :
    PlotsOnce fb st (tileFragments fb st m addr size spacing offset)
      (tilePlot m addr size spacing offset) :=
  ⟨fun _ ↦ depth_of_mem_tileFragments, filter_isAt_tileFragments hsize hcombine⟩

/-! ## Draws -/

/-- A tile grid is its fragments; the depth buffer has no part in it. -/
theorem drawTiles_eq_writeAll_of_apart
    (hapart : ∀ i, (tileSource addr size).Owns i → ¬ fb.Owns i) (m : Rdram) (spacing : UInt8)
    (offset : UInt16) :
    drawTiles fb st m addr size spacing offset =
      writeAll fb st (tileFragments fb st m addr size spacing offset) m := by
  have hsource : (tileSource addr size).Apart fb st.withoutDepth.depth := fun i hi ↦
    ⟨hapart i hi, RenderState.not_owns_initial 0 0 i⟩
  rw [writeAll_withoutDepth fun _ ↦ depth_of_mem_tileFragments]
  exact drawTiles_eq_writeAll hsource m spacing offset

/-- Only the remainder of the offset counts. -/
theorem drawTiles_congr {offset' : UInt16}
    (h : offset'.toNat % (size.toNat + spacing.toNat) =
      offset.toNat % (size.toNat + spacing.toNat)) :
    drawTiles fb st m addr size spacing offset' = drawTiles fb st m addr size spacing offset := by
  have hfirst : (offset'.toNat : Int) % (size.toNat + spacing.toNat) =
      offset.toNat % (size.toNat + spacing.toNat) := by exact_mod_cast h
  simp only [drawTiles, hfirst]

/-- **A tile grid is the shifted periodic grid of its tile.**  Each pixel in the framebuffer and the
scissor has exactly one fragment if the remainders of its shifted coordinates are those of a texel,
with the color of this texel, and none otherwise.  So it is blended once or left as it was, no other
byte of memory changes, and offsets that differ by whole periods draw the same. -/
theorem drawTiles_periodic (hfb : fb.Separate)
    (hfits : ∀ {x y : Int}, fb.contains x y = true → m.Fits (fb.addressOf x y) 2)
    (hsize : 1 ≤ size.toNat) (hcombine : st.combine = .texture)
    (hapart : ∀ i, (tileSource addr size).Owns i → ¬ fb.Owns i) :
    let period : Int := size.toNat + spacing.toNat
    let u (x : Int) : Int := (x - offset.toNat) % period
    let v (y : Int) : Int := y % period
    let plot (x y : Int) : Fragment := ⟨x, y, tileTexel m addr size (u x) (v y), true, none⟩
    let fragments := tileFragments fb st m addr size spacing offset
    let drawn := drawTiles fb st m addr size spacing offset
    drawn = writeAll fb st fragments m ∧
    (∀ x y, fb.contains x y = true → st.scissor.contains x y = true →
      let old := Memory.halfOr 0 m (fb.addressOf x y)
      if u x < size.toNat ∧ v y < size.toNat then
        fragments.filter (Fragment.isAt x y) = [plot x y] ∧
          Memory.read16 drawn (fb.addressOf x y) = .ok ((plot x y).paintOver st old)
      else
        fragments.filter (Fragment.isAt x y) = [] ∧
          Memory.read16 drawn (fb.addressOf x y) = .ok old) ∧
    drawn.size = m.size ∧
    (∀ i, drawn.byte i ≠ m.byte i → ∃ x y, fb.contains x y = true ∧
      st.scissor.contains x y = true ∧ (u x < size.toNat ∧ v y < size.toNat) ∧
      InHalf (fb.addressOf x y) i) ∧
    ∀ offset' : UInt16, offset'.toNat % (size.toNat + spacing.toNat) =
        offset.toNat % (size.toNat + spacing.toNat) →
      drawTiles fb st m addr size spacing offset' = drawn := by
  intro period u v plot fragments drawn
  have hne : size ≠ 0 := fun h ↦ by rw [h] at hsize; exact absurd hsize (by decide)
  have hplots : PlotsOnce fb st fragments (tilePlot m addr size spacing offset) :=
    plotsOnce_tileFragments hne hcombine
  have hdrawn : drawn = writeAll fb st fragments m := drawTiles_eq_writeAll_of_apart hapart m _ _
  have hframe := hplots.frame_writeAll m
  rw [← hdrawn] at hframe
  have hplot (x y : Int) : tilePlot m addr size spacing offset x y =
      if u x < size.toNat ∧ v y < size.toNat then some (plot x y) else none := rfl
  refine ⟨hdrawn, fun x y hxy hscissor ↦ ?_, hframe.size_eq, fun i hi ↦ ?_,
    fun offset' h ↦ drawTiles_congr h⟩
  · have hpixel := hplots.filter_isAt hxy hscissor
    have hread := hplots.read16_writeAll hfb hxy hscissor (hfits hxy)
    rw [← hdrawn] at hread
    rw [hplot] at hpixel hread
    split
    · next hin =>
      rw [if_pos hin] at hpixel hread
      exact ⟨hpixel, hread⟩
    · next hin =>
      rw [if_neg hin] at hpixel hread
      exact ⟨hpixel, hread⟩
  · obtain ⟨x, y, hxy, hscissor, hsome, hin⟩ := hframe.mem_of_byte_ne hi
    refine ⟨x, y, hxy, hscissor, ?_, hin⟩
    by_contra hout
    rw [hplot, if_neg hout] at hsome
    exact Bool.false_ne_true hsome

/-- Tiles of two by two pixels, one pixel apart, that are averaged into the right part of a row.
The second column is covered by the second tile from the left, the fourth lies between two tiles. -/
theorem drawTiles_periodic_average :
    let fb : Framebuffer := ⟨0, 4, 4, 4⟩
    let st : RenderState :=
      { RenderState.initial 4 4 with blend := .average, scissor := .clamped ⟨1, 0, 9, 4⟩ 4 4 }
    let m := (Memory.write16 (Rdram.zeroed 128) 64 0xF801).memory
    let drawn := drawTiles fb st m 64 2 1 4
    Memory.read16 drawn (fb.addressOf 1 3) = .ok 0x7801 ∧
      Memory.read16 drawn (fb.addressOf 3 3) = .ok 0 ∧
      drawTiles fb st m 64 2 1 1 = drawn := by
  intro fb st m drawn
  have hrows : Rows fb.origin fb.stride fb.height.toNat := ⟨by decide, by decide⟩
  have htexture : Rows (64 : UInt32) 2 (2 : UInt32).toNat := ⟨by decide, by decide⟩
  have hsize : m.size = 128 := by decide +kernel
  have hfits {x y : Int} (hxy : fb.contains x y = true) : m.Fits (fb.addressOf x y) 2 :=
    Framebuffer.fits_of_rows hrows (by decide) (by rw [hsize]; decide) hxy
  have hapart : ∀ i, (tileSource 64 2).Owns i → ¬ fb.Owns i := by
    intro i hi hp
    have hlow : 64 ≤ i := (TexelSource.Owns.bounds hi htexture (by decide)).1
    have hhigh := (hp.bounds hrows (by decide)).2
    have horigin : physical fb.origin + 2 * (fb.height.toNat * fb.stride.toNat) = 32 := by decide
    omega
  obtain ⟨-, hpixels, -, -, hoffset⟩ := @drawTiles_periodic fb st m 64 2 1 4
    (Framebuffer.separate_of_rows hrows (by decide)) hfits (by decide) rfl hapart
  have hcovered := hpixels 1 3 (by decide) (by decide)
  have hbetween := hpixels 3 3 (by decide) (by decide)
  rw [if_pos (by decide)] at hcovered
  rw [if_neg (by decide)] at hbetween
  refine ⟨hcovered.2.trans ?_, hbetween.2.trans ?_, hoffset 1 (by decide)⟩
  · exact congrArg Except.ok (by decide +kernel)
  · exact congrArg Except.ok (by decide +kernel)

end

end DisplayRaster
