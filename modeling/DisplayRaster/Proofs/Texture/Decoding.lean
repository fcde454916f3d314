import DisplayRaster.Proofs.DisplayList.VertexRecord
import DisplayRaster.Proofs.Draw.Places

/-!
# Sampled textures are decoded images

There are two ways from bytes to packed colors.  `Bitmap.decode` walks over an image from its first
byte to its last, `texelAt` computes the address of one texel in memory.  Both make the same of a
texel (`Bitmap.texel`), so a texture whose bytes memory holds has the texels of the decoded image
(`texelAt_eq_decode`).

The address of a texel is computed in 32-bit words.  A number of texels beyond `2 ^ 32` wraps around
in them.  This moves an address by a multiple of `2 ^ 31`, and so to a mirror of the same byte
(`Rdram.physical_half_index`).  No bound on the size of a texture is needed.
-/

set_option autoImplicit false

namespace DisplayRaster

/-! ## Texels of an image -/

namespace Bitmap

/-- The packed color of one texel of an image. -/
def texel (format : TexelFormat) (palette : Array UInt16) (data : ByteArray) (i : Nat) : UInt16 :=
  let octet := byteAt data i
  let nibble := nibbleAt (byteAt data (i / 2)) i
  let half := halfword (byteAt data (2 * i)) (byteAt data (2 * i + 1))
  match format with
  | .ci4 => paletteEntry palette nibble
  | .ci8 => paletteEntry palette octet
  | .rgba16 => half
  | .i4 => Texel.i4 nibble
  | .i8 => Texel.i8 octet
  | .ia8 => Texel.ia8 octet
  | .ia16 => Texel.ia16 half

variable {format : TexelFormat} {palette : Array UInt16} {data : ByteArray} {width height : UInt32}

/-- An image is decoded texel by texel. -/
theorem decode_eq_map : decode format palette data width height =
    (List.range (decodedCount width height (data.size * 8 / format.texelBits))).map
      (texel format palette data) := by
  have h4 : data.size * 8 / 4 = data.size * 2 := by omega
  have h8 : data.size * 8 / 8 = data.size := by omega
  have h16 : data.size * 8 / 16 = data.size / 2 := by omega
  cases format <;>
    simp [decode, nibbles, octets, halfwords, TexelFormat.texelBits, texel, h4, h8, h16]

theorem getElem?_decode {i : Nat} (hi : i < width.toNat * height.toNat)
    (hdata : width.toNat * height.toNat * format.texelBits ≤ data.size * 8) :
    (decode format palette data width height)[i]? = some (texel format palette data i) := by
  have hbits : 0 < format.texelBits := by cases format <;> decide
  have hcount : i < decodedCount width height (data.size * 8 / format.texelBits) :=
    Nat.lt_min.2 ⟨hi, Nat.lt_of_lt_of_le hi ((Nat.le_div_iff_mul_le hbits).2 hdata)⟩
  rw [decode_eq_map, List.getElem?_map, List.getElem?_range hcount]
  rfl

end Bitmap

/-! ## Bytes of an image in memory -/

namespace Rdram

open Bitmap (byteAt)

variable {m : Rdram} {addr : UInt32} {data : ByteArray} {i : Nat}

theorem read8_image (h : Memory.HoldsBytes m addr data.data.toList) (hi : i < data.size) :
    m.read8 (addr + UInt32.ofNat i) = .ok (byteAt data i) := by
  rw [byteAt, dif_pos hi]
  exact Memory.holdsBytes_iff.1 h i hi

/-- Every mirror of a byte of an image reads as this byte. -/
theorem byteOrZero_image (h : Memory.HoldsBytes m addr data.data.toList) (hi : i < data.size)
    {a : UInt32} (ha : physical a = physical (addr + UInt32.ofNat i)) :
    Memory.byteOrZero m a = byteAt data i := by
  obtain ⟨hin, hbyte⟩ := read8_eq_ok (read8_image h hi)
  have hfits : m.Fits a 1 := ⟨Nat.mod_one _, ha ▸ hin⟩
  have hread : Memory.read8 m a = .ok (m.byte (physical a)) := read8_of_fits hfits
  rw [Memory.byteOrZero, hread, ha, hbyte]

theorem halfOr_image (h : Memory.HoldsBytes m addr data.data.toList) (hi : 2 * i + 1 < data.size)
    (heven : addr.toNat % 2 = 0) :
    Memory.halfOr 0 m (addr + UInt32.ofNat i * 2) =
      halfword (byteAt data (2 * i)) (byteAt data (2 * i + 1)) := by
  have hplace : addr + UInt32.ofNat i * 2 = addr + UInt32.ofNat (2 * i) := by
    rw [UInt32.mul_comm, UInt32.ofNat_mul]
    rfl
  have hnext : addr + UInt32.ofNat (2 * i + 1) = addr + UInt32.ofNat (2 * i) + 1 := by
    rw [UInt32.ofNat_add, ← UInt32.add_assoc]
    rfl
  have hplace_even : (addr + UInt32.ofNat (2 * i)).toNat % 2 = 0 := by
    rw [UInt32.toNat_add, UInt32.toNat_ofNat']
    omega
  obtain ⟨-, hhigh⟩ := read8_eq_ok (read8_image h (show 2 * i < data.size by omega))
  obtain ⟨hin, hlow⟩ := read8_eq_ok (read8_image h hi)
  rw [hnext, physical_succ hplace_even] at hin hlow
  have hread : Memory.read16 m (addr + UInt32.ofNat (2 * i)) = .ok _ :=
    read16_of_fits ⟨hplace_even, hin⟩
  rw [hplace, Memory.halfOr, hread, hhigh, hlow]

/-- Half an index that has wrapped around is a mirror of half the index. -/
theorem physical_half_index (addr : UInt32) (i : Nat) :
    physical (addr + UInt32.ofNat i / 2) = physical (addr + UInt32.ofNat (i / 2)) := by
  have h2 : (2 : UInt32).toNat = 2 := rfl
  rw [physical_eq_mod, physical_eq_mod, UInt32.toNat_add, UInt32.toNat_add, UInt32.toNat_div,
    UInt32.toNat_ofNat', UInt32.toNat_ofNat', h2]
  omega

theorem nibble_image (h : Memory.HoldsBytes m addr data.data.toList) (hi : i / 2 < data.size) :
    nibbleAt (Memory.byteOrZero m (addr + UInt32.ofNat i / 2)) (UInt32.ofNat i).toNat =
      nibbleAt (byteAt data (i / 2)) i := by
  rw [byteOrZero_image h hi (physical_half_index addr i), nibbleAt, nibbleAt,
    UInt32.toNat_ofNat', Nat.mod_mod_of_dvd _ (by decide)]

/-- Memory holds its own bytes. -/
theorem holdsBytes_extract {first last : Nat} (hfirst : physical addr = first)
    (hlast : last ≤ m.size) (hsize : m.size ≤ 2 ^ 29) :
    Memory.HoldsBytes m addr (m.bytes.extract first last).data.toList := by
  have hbytes : m.size = m.bytes.size := rfl
  refine Memory.holdsBytes_iff.2 fun i hi ↦ ?_
  have hi : first + i < last := by
    simp only [Array.length_toList, ByteArray.data_extract, Array.size_extract] at hi
    omega
  have hplace : physical (addr + UInt32.ofNat i) = first + i := by
    rw [physical_add (by omega), hfirst]
  have hfits : m.Fits (addr + UInt32.ofNat i) 1 := ⟨Nat.mod_one _, by omega⟩
  refine (read8_of_fits hfits).trans ?_
  rw [hplace, byte, dif_pos (by omega)]
  simp only [Array.getElem_toList, ByteArray.data_extract, Array.getElem_extract]
  rfl

end Rdram

/-! ## Palettes -/

/-- The palette that the indices of a format count from: the selected bank of the lookup table for
four-bit indices, the whole table for eight-bit ones, and no entry before a table has been set. -/
def RenderState.palette (st : RenderState) (format : TexelFormat) : Array UInt16 :=
  match st.table with
  | none => #[]
  | some table =>
    match format with
    | .ci4 =>
      let first := LookupTable.bankSize * (st.bank &&& 0xF).toNat
      table.entries.toArray.extract first (first + LookupTable.bankSize)
    | _ => table.entries.toArray

namespace RenderState

theorem lookup_octet (st : RenderState) (index : UInt8) :
    st.lookup index.toNat = Bitmap.paletteEntry (st.palette .ci8) index := by
  have hindex := index.toNat_lt
  rw [lookup, palette, Bitmap.paletteEntry]
  cases st.table with
  | none => rfl
  | some table =>
    simp only [LookupTable.lookup, Nat.mod_eq_of_lt hindex]
    rw [Array.getElem?_eq_getElem (by simpa using hindex)]
    rfl

theorem lookup_nibble (st : RenderState) {index : UInt8} (hindex : index.toNat < 16) :
    st.lookup ((st.bank &&& 0xF).toNat * LookupTable.bankSize + index.toNat) =
      Bitmap.paletteEntry (st.palette .ci4) index := by
  have hbank := st.toNat_bank_lt
  rw [lookup, palette, Bitmap.paletteEntry]
  cases st.table with
  | none => rfl
  | some table =>
    simp only [LookupTable.lookup, LookupTable.bankSize]
    rw [Array.getElem?_extract_of_lt (by rw [Vector.size_toArray]; omega)]
    simp (disch := omega) only [Nat.mod_eq_of_lt, Nat.mul_comm, Option.getD_some,
      Vector.getElem_toArray]

end RenderState

/-! ## Textures -/

section

variable {m : Rdram} {addr width height : UInt32} {data : ByteArray} {format : TexelFormat}
  {s t : Nat}

/-- A texel of a texture is the texel of the image that memory holds. -/
theorem texelAt_eq_texel (st : RenderState) (h : Memory.HoldsBytes m addr data.data.toList)
    (hdata : (t * width.toNat + s + 1) * format.texelBits ≤ data.size * 8)
    (heven : format.texelBits = 16 → addr.toNat % 2 = 0) :
    texelAt st m ⟨format, .packed addr width height⟩ s t =
      Bitmap.texel format (st.palette format) data (t * width.toNat + s) := by
  simp only [texelAt, Texture.texelIndex_eq, Texture.packed, Bitmap.texel]
  generalize t * width.toNat + s = i at hdata ⊢
  cases format with
  | ci4 =>
    have hi : (i + 1) * 4 ≤ data.size * 8 := hdata
    rw [Rdram.nibble_image h (by omega)]
    exact st.lookup_nibble (toNat_nibbleAt_lt _ _)
  | i4 =>
    have hi : (i + 1) * 4 ≤ data.size * 8 := hdata
    rw [Rdram.nibble_image h (by omega)]
  | ci8 =>
    have hi : (i + 1) * 8 ≤ data.size * 8 := hdata
    rw [Rdram.byteOrZero_image h (by omega) rfl]
    exact st.lookup_octet _
  | i8 | ia8 =>
    have hi : (i + 1) * 8 ≤ data.size * 8 := hdata
    rw [Rdram.byteOrZero_image h (by omega) rfl]
  | rgba16 | ia16 =>
    have hi : (i + 1) * 16 ≤ data.size * 8 := hdata
    rw [Rdram.halfOr_image h (by omega) (heven rfl)]

/-- **Sampled textures are decoded images.**  An image decodes to as many texels as it declares, or
to as many as its data holds.  Where memory holds all of its bytes, every texel of the packed
texture is the texel of the decoded image at its number; only textures of halfwords have to be
aligned. -/
theorem texelAt_eq_decode (format : TexelFormat) (width height : UInt32) :
    (∀ palette data, (Bitmap.decode format palette data width height).length =
      min (width.toNat * height.toNat) (data.size * 8 / format.texelBits)) ∧
    ∀ (st : RenderState) (m : Rdram) (addr : UInt32) (data : ByteArray),
      Memory.HoldsBytes m addr data.data.toList →
      width.toNat * height.toNat * format.texelBits ≤ data.size * 8 →
      (format.texelBits = 16 → addr.toNat % 2 = 0) →
      ∀ s t, s < width.toNat → t < height.toNat →
        (Bitmap.decode format (st.palette format) data width height)[t * width.toNat + s]? =
          some (texelAt st m ⟨format, .packed addr width height⟩ s t) := by
  refine ⟨fun palette data ↦ Bitmap.length_decode format palette data width height, ?_⟩
  intro st m addr data hbytes hdata heven s t hs ht
  have hi : t * width.toNat + s < width.toNat * height.toNat := by
    rw [Nat.mul_comm width.toNat]
    exact Rows.index_lt hs ht
  rw [Bitmap.getElem?_decode hi hdata,
    texelAt_eq_texel st hbytes (Nat.le_trans (Nat.mul_le_mul_right _ hi) hdata) heven]

/-- Three texels to a row, two to a byte. -/
theorem texelAt_eq_decode_odd_width :
    let st : RenderState :=
      { RenderState.initial 1 1 with
        table := some (LookupTable.load 64 fun i ↦ UInt16.ofNat (100 + i)), bank := 0x12 }
    let m := (Memory.writeBytes (Rdram.zeroed 16) 5 [0x12, 0x34, 0x56]).memory
    let data := m.bytes.extract 5 8
    Memory.HoldsBytes m 5 data.data.toList ∧
      Bitmap.decode .ci4 (st.palette .ci4) data 3 2 = [133, 134, 135, 136, 137, 138] ∧
      texelAt st m ⟨.ci4, .packed 5 3 2⟩ 1 1 = 137 := by
  intro st m data
  have hsize : m.size = 16 := by decide
  have hbytes : Memory.HoldsBytes m 5 data.data.toList :=
    Rdram.holdsBytes_extract (by decide) (by omega) (by omega)
  have hdecode : Bitmap.decode .ci4 (st.palette .ci4) data 3 2 =
      [133, 134, 135, 136, 137, 138] := by decide +kernel
  obtain ⟨-, hall⟩ := texelAt_eq_decode .ci4 3 2
  have htexel := hall st m 5 data hbytes (by decide) (by decide) 1 1 (by decide) (by decide)
  rw [hdecode] at htexel
  exact ⟨hbytes, hdecode, (Option.some.inj htexel).symm⟩

end

end DisplayRaster
