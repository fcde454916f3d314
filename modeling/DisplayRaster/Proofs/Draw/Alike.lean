import DisplayRaster.Proofs.Draw.Fragments

/-!
# Textures that show the same image

What a texture contributes to a draw are the colors of its texels, and whether it can be shown at
all.  Two textures that agree in both (`TexelSource.Alike`) may differ in everything else, their
formats and addresses included: they have the same fragments, and draw the same if they lie apart
from the frame.

A four-bit texture and an eight-bit one are such textures if the eight-bit indices are the four-bit
ones with the bank in front (`Texture.Expands`), and this is so with or without a lookup table
(`draw_expanded`).
-/

set_option autoImplicit false

namespace DisplayRaster

open Rdram

namespace TexelSource

/-- Textures of one size that have the same colors and can be shown in the same states. -/
structure Alike (st : RenderState) (m : Rdram) (a b : TexelSource) : Prop where
  width_eq : a.texture.width = b.texture.width
  height_eq : a.texture.height = b.texture.height
  isIndexed_eq : a.format.isIndexed = b.format.isIndexed
  texelAt_eq : ∀ {s t : Nat}, s < a.texture.width.toNat → t < a.texture.height.toNat →
    texelAt st m a s t = texelAt st m b s t

namespace Alike

variable {fb : Framebuffer} {st : RenderState} {m : Rdram} {a b : TexelSource}
  (h : Alike st m a b)

include h

theorem isEmpty_eq : a.texture.isEmpty = b.texture.isEmpty := by
  rw [Texture.isEmpty, Texture.isEmpty, h.width_eq, h.height_eq]

/-- Alike textures can both not be shown, are both painted over, or are both shown. -/
theorem choose_cases :
    (Paint.choose st (some a) = none ∧ Paint.choose st (some b) = none) ∨
      (∃ color, Paint.choose st (some a) = some (.flat color) ∧
        Paint.choose st (some b) = some (.flat color)) ∨
      (Paint.choose st (some a) = some (.texels a) ∧ Paint.choose st (some b) = some (.texels b) ∧
        a.texture.isEmpty = false) := by
  rw [Paint.choose.eq_def, Paint.choose.eq_def]
  cases st.combine with
  | primitive => exact .inr (.inl ⟨_, rfl, rfl⟩)
  | environment => exact .inr (.inl ⟨_, rfl, rfl⟩)
  | texture =>
    simp only [← h.isEmpty_eq, ← h.isIndexed_eq]
    cases a.texture.isEmpty with
    | true => exact .inl ⟨rfl, rfl⟩
    | false =>
      cases a.format.isIndexed && st.table.isNone with
      | true => exact .inl ⟨rfl, rfl⟩
      | false => exact .inr (.inr ⟨rfl, rfl, rfl⟩)

theorem texelFolded_eq (hempty : a.texture.isEmpty = false) (s t : Int) :
    texelFolded st m a s t = texelFolded st m b s t := by
  simp only [Texture.isEmpty, Bool.or_eq_false_iff, decide_eq_false_iff_not] at hempty
  rw [texelFolded, texelFolded, ← h.width_eq, ← h.height_eq]
  exact h.texelAt_eq (AddressMode.fold_lt_size _ s hempty.1) (AddressMode.fold_lt_size _ t hempty.2)

theorem sample_eq (hempty : a.texture.isEmpty = false) (coord : TextureCoord) :
    sample st m a coord = sample st m b coord := by
  have hnearest : sampleNearest st m a coord = sampleNearest st m b coord :=
    h.texelFolded_eq hempty _ _
  have htaps : bilinearTaps st m a coord = bilinearTaps st m b coord := by
    simp only [bilinearTaps, h.texelFolded_eq hempty]
  rw [sample, sample, hnearest, htaps]

/-! ## Fragments -/

theorem rectRegion_eq (scissor : Scissor) (x y : Int) :
    rectRegion scissor a.texture x y = rectRegion scissor b.texture x y := by
  rw [rectRegion, rectRegion, h.width_eq, h.height_eq]

/-- Rectangles with alike textures have the same fragments. -/
theorem rectFragments_eq (x y : Int) : rectFragments st m a x y = rectFragments st m b x y := by
  rw [rectFragments, rectFragments]
  obtain ⟨ha, hb⟩ | ⟨color, ha, hb⟩ | ⟨ha, hb, -⟩ := h.choose_cases
  · rw [ha, hb]
  · simp only [ha, hb, h.rectRegion_eq]
  · simp only [ha, hb, ← h.rectRegion_eq]
    refine List.filterMap_congr fun p hp ↦ ?_
    obtain ⟨hin, -⟩ := contains_rectRegion.1 (Region.mem_rowMajor.1 hp)
    have htexel : texelAt st m a (p.1 - x).toNat (p.2 - y).toNat =
        texelAt st m b (p.1 - x).toNat (p.2 - y).toNat := h.texelAt_eq (by omega) (by omega)
    simp only [rectFragment, Paint.colorAtTexel, htexel]
    rfl

/-- Triangles with alike textures have the same fragments. -/
theorem triangleFragments_eq (v : Corners Vertex) (projection : Projection)
    (carriesDepth : Bool) :
    triangleFragments fb st m v (some a) projection carriesDepth =
      triangleFragments fb st m v (some b) projection carriesDepth := by
  rw [triangleFragments, triangleFragments]
  obtain ⟨ha, hb⟩ | ⟨color, ha, hb⟩ | ⟨ha, hb, hempty⟩ := h.choose_cases
  · rw [ha, hb]
  · rw [ha, hb]
  · rw [ha, hb]
    cases Oriented.ofVertices v with
    | none => rfl
    | some tri =>
      simp only [Oriented.fragment, Paint.colorAt, h.sample_eq hempty]
      rfl

/-! ## Draws -/

variable (ha : a.Apart fb st.depth) (hb : b.Apart fb st.depth)

include ha hb

theorem drawRect_eq (x y : Int) : drawRect fb st m a x y = drawRect fb st m b x y := by
  rw [drawRect_eq_writeAll ha, drawRect_eq_writeAll hb, h.rectFragments_eq]

theorem drawTriangle_eq (v : Corners Vertex) (projection : Projection) (carriesDepth : Bool) :
    drawTriangle fb st m v (some a) projection carriesDepth =
      drawTriangle fb st m v (some b) projection carriesDepth := by
  rw [drawTriangle_eq_writeAll (fun _ hs ↦ Option.some.inj hs ▸ ha),
    drawTriangle_eq_writeAll (fun _ hs ↦ Option.some.inj hs ▸ hb), h.triangleFragments_eq]

end Alike

end TexelSource

/-! ## Indices of four and of eight bits -/

/-- The eight-bit texture at `addr`, of the same size and pitch, has the indices of the four-bit
texture with the bank in front. -/
def Texture.Expands (texture : Texture) (bank : UInt8) (m : Rdram) (addr : UInt32) : Prop :=
  ∀ s < texture.width.toNat, ∀ t < texture.height.toNat,
    let index := texture.texelIndex s t
    (Memory.byteOrZero m (addr + index)).toNat =
      LookupTable.bankSize * (bank &&& 0xF).toNat +
        (nibbleAt (Memory.byteOrZero m (texture.addr + index / 2)) index.toNat).toNat

theorem Texture.Expands.alike {texture : Texture} {st : RenderState} {m : Rdram} {addr : UInt32}
    (h : texture.Expands st.bank m addr) :
    TexelSource.Alike st m ⟨.ci4, texture⟩ ⟨.ci8, { texture with addr := addr }⟩ where
  width_eq := rfl
  height_eq := rfl
  isIndexed_eq := rfl
  texelAt_eq := by
    intro s t hs ht
    have hindex := h s hs t ht
    rw [Nat.mul_comm] at hindex
    exact congrArg st.lookup hindex.symm

instance (texture : Texture) (bank : UInt8) (m : Rdram) (addr : UInt32) :
    Decidable (texture.Expands bank m addr) :=
  inferInstanceAs (Decidable (∀ s < _, ∀ t < _, _ = _))

/-- An indexed texture in rows has no byte before its first. -/
theorem TexelSource.Owns.ge_of_indexed {format : TexelFormat} {texture : Texture} {i : Nat}
    (hi : TexelSource.Owns ⟨format, texture⟩ i) (hformat : format.isIndexed = true)
    (hwidth : texture.width.toNat ≤ texture.pitch.toNat)
    (hroom : physical texture.addr + texture.height.toNat * texture.pitch.toNat ≤ 2 ^ 29) :
    physical texture.addr ≤ i := by
  obtain ⟨s, t, hs, ht, hi⟩ := hi
  have ht : t < texture.height.toNat := ht
  have hlt := Rows.index_lt (Nat.lt_of_lt_of_le hs hwidth) ht
  have hindex : (texture.texelIndex s t).toNat = t * texture.pitch.toNat + s := by
    rw [texture.texelIndex_eq, UInt32.toNat_ofNat', Nat.mod_eq_of_lt (by omega)]
  have hplace {offset : UInt32} (hoffset : offset.toNat ≤ (texture.texelIndex s t).toNat) :
      physical (texture.addr + offset) = physical texture.addr + offset.toNat := by
    rw [← physical_add (n := offset.toNat) (by omega), UInt32.ofNat_toNat]
  cases format with
  | ci8 =>
    have hi : i = physical (texture.addr + texture.texelIndex s t) := hi
    rw [hplace (Nat.le_refl _)] at hi
    omega
  | ci4 =>
    have hi : i = physical (texture.addr + texture.texelIndex s t / 2) := hi
    rw [hplace (by rw [UInt32.toNat_div]; exact Nat.div_le_self _ _)] at hi
    omega
  | _ => cases hformat

/-- An indexed texture above a framebuffer and a depth buffer. -/
theorem TexelSource.apart_of_indexed {fb : Framebuffer} {z : DepthBuffer} {format : TexelFormat}
    {texture : Texture} (hformat : format.isIndexed = true)
    (hwidth : texture.width.toNat ≤ texture.pitch.toNat)
    (hroom : physical texture.addr + texture.height.toNat * texture.pitch.toNat ≤ 2 ^ 29)
    (hfb : Rows fb.origin fb.stride fb.height.toNat) (hfbwidth : fb.width.toNat ≤ fb.stride.toNat)
    (hfble : physical fb.origin + 2 * (fb.height.toNat * fb.stride.toNat) ≤ physical texture.addr)
    (hz : Rows z.addr z.width z.height.toNat)
    (hzle : physical z.addr + 2 * (z.height.toNat * z.width.toNat) ≤ physical texture.addr) :
    TexelSource.Apart ⟨format, texture⟩ fb z :=
  apart_of_above (fun _ hi ↦ hi.ge_of_indexed hformat hwidth hroom) hfb hfbwidth hfble hz hzle

/-- **Four-bit and eight-bit indices of one image draw the same**, as rectangles and as triangles,
whatever the state. -/
theorem draw_expanded {fb : Framebuffer} {st : RenderState} {m : Rdram} {texture : Texture}
    {addr : UInt32} (h : texture.Expands st.bank m addr)
    (h4 : TexelSource.Apart ⟨.ci4, texture⟩ fb st.depth)
    (h8 : TexelSource.Apart ⟨.ci8, { texture with addr := addr }⟩ fb st.depth) :
    (texture.pitch = texture.width → ∀ x y : Int32,
      Command.draw fb (.rect ⟨.ci4, texture.addr, texture.width, texture.height, x, y⟩) st m =
        Command.draw fb (.rect ⟨.ci8, addr, texture.width, texture.height, x, y⟩) st m) ∧
    ∀ (projection : Projection) (v : Corners Vertex),
      Command.draw fb (.texTriangle .ci4 projection texture v) st m =
        Command.draw fb (.texTriangle .ci8 projection { texture with addr := addr } v) st m := by
  refine ⟨fun hpitch x y ↦ ?_, fun projection v ↦ h.alike.drawTriangle_eq h4 h8 v projection false⟩
  obtain ⟨addr4, width, height, pitch⟩ := texture
  obtain rfl : pitch = width := hpitch
  exact h.alike.drawRect_eq h4 h8 x.toInt y.toInt

/-- Nine texels in bank 3; with an odd pitch the rows of the four-bit texture begin in the middle of
a byte. -/
theorem draw_expanded_odd_pitch :
    let fb : Framebuffer := ⟨0, 4, 4, 4⟩
    let st : RenderState :=
      { RenderState.initial 4 4 with
        bank := 3, filter := .bilinear, addressS := .mirror, depth := ⟨32, 4, 4⟩
        table := some (.load 256 fun i ↦ UInt16.ofNat (2 * i + 1)) }
    let m : Rdram := ⟨⟨Array.replicate 64 0 ++
      #[0x12, 0x34, 0x56, 0x78, 0x90, 0x31, 0x32, 0x33, 0x34, 0x35, 0x36, 0x37, 0x38, 0x39]⟩⟩
    let v : Corners Vertex := ⟨.textured 0 0 0 0, .textured 4 0 5 0, .textured 0 4 0 7⟩
    let rect4 : Command := .rect ⟨.ci4, 64, 3, 3, 1, 0⟩
    let rect8 : Command := .rect ⟨.ci8, 69, 3, 3, 1, 0⟩
    rect4.draw fb st m = rect8.draw fb st m ∧
      Memory.read16 (rect4.draw fb st m) (fb.addressOf 1 1) = .ok 0x69 ∧
      Command.draw fb (.texTriangle .ci4 .perspective ⟨64, 3, 3, 3⟩ v) st m =
        Command.draw fb (.texTriangle .ci8 .perspective ⟨69, 3, 3, 3⟩ v) st m := by
  intro fb st m v rect4 rect8
  have hfb : Rows fb.origin fb.stride fb.height.toNat := ⟨by decide, by decide⟩
  have hz : Rows st.depth.addr st.depth.width st.depth.height.toNat := ⟨by decide, by decide⟩
  have hexpands : Texture.Expands ⟨64, 3, 3, 3⟩ st.bank m 69 := by decide
  have h4 : TexelSource.Apart ⟨.ci4, ⟨64, 3, 3, 3⟩⟩ fb st.depth :=
    TexelSource.apart_of_indexed rfl (by decide) (by decide) hfb (by decide) (by decide) hz
      (by decide)
  have h8 : TexelSource.Apart ⟨.ci8, ⟨69, 3, 3, 3⟩⟩ fb st.depth :=
    TexelSource.apart_of_indexed rfl (by decide) (by decide) hfb (by decide) (by decide) hz
      (by decide)
  obtain ⟨hrect, htriangle⟩ := draw_expanded hexpands h4 h8
  exact ⟨hrect rfl 1 0, by decide +kernel, htriangle .perspective v⟩

end DisplayRaster
