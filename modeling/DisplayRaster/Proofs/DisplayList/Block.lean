import DisplayRaster.Proofs.DisplayList.Records
import DisplayRaster.Proofs.DisplayList.VertexRecord

/-!
# A block of bytes at two places

A block may lie at one base in one memory and at another base in another memory.  Both bases are
multiples of eight, so an access is aligned in both placements or in neither.  Whatever lies in the
block reads the same at both places: halfwords and words (`BlockAt.read16_shift`,
`BlockAt.read32_shift`), and so instructions and vertex records.
-/

set_option autoImplicit false

namespace DisplayRaster

namespace Rdram

variable {m m' : Rdram} {base base' addr : UInt32} {block : List UInt8}

/-- A block of bytes at a base that is a multiple of eight. -/
structure BlockAt (m : Rdram) (base : UInt32) (block : List UInt8) : Prop where
  aligned : base.toNat % 8 = 0
  holds : Memory.HoldsBytes m base block

/-- The `width` bytes at an address lie in a block of `size` bytes, or in a mirror of it. -/
def InBlock (base : UInt32) (size : Nat) (addr : UInt32) (width : Nat) : Prop :=
  physical (addr - base) + width ≤ size

instance (base : UInt32) (size : Nat) (addr : UInt32) (width : Nat) :
    Decidable (InBlock base size addr width) :=
  inferInstanceAs (Decidable (_ ≤ _))

/-- A field of what lies in a block lies in the block. -/
theorem InBlock.part {size width width' : Nat} (h : InBlock base size addr width)
    {offset : UInt32} (hpart : offset.toNat + width' ≤ width) :
    InBlock base size (addr + offset) width' := by
  rw [InBlock, physical_eq_mod, UInt32.toNat_sub] at h ⊢
  rw [UInt32.toNat_add]
  omega

namespace BlockAt

theorem byte_at (h : BlockAt m base block) {i : Nat} (hi : i < block.length) :
    physical (base + UInt32.ofNat i) < m.size ∧
      m.byte (physical (base + UInt32.ofNat i)) = block[i] :=
  read8_eq_ok (Memory.holdsBytes_iff.1 h.holds i hi)

/-- The bytes of an access are bytes of the block. -/
theorem byte_eq (h : BlockAt m base block) {width i : Nat}
    (hin : InBlock base block.length addr width) (hi : i < width)
    (hwrap : physical addr + i < 2 ^ 29) :
    physical addr + i < m.size ∧
      m.byte (physical addr + i) = block.getD (physical (addr - base) + i) 0 := by
  have hlt : physical (addr - base) + i < block.length :=
    Nat.lt_of_lt_of_le (Nat.add_lt_add_left hi _) hin
  have hplace : physical (base + UInt32.ofNat (physical (addr - base) + i)) =
      physical addr + i := by
    have hbase := base.toNat_lt
    rw [physical_eq_mod] at hwrap
    rw [physical_eq_mod, physical_eq_mod addr, physical_eq_mod (addr - base), UInt32.toNat_add,
      UInt32.toNat_ofNat', UInt32.toNat_sub]
    omega
  have hbyte := h.byte_at hlt
  rw [hplace] at hbyte
  rwa [← List.getElem_eq_getD 0]

/-- The halfword that lies at an offset in a block. -/
def halfAt (block : List UInt8) (i : Nat) : UInt16 :=
  halfword (block.getD i 0) (block.getD (i + 1) 0)

theorem read16_eq (h : BlockAt m base block) (haligned : addr.toNat % 2 = 0)
    (hin : InBlock base block.length addr 2) :
    Memory.read16 m addr = .ok (halfAt block (physical (addr - base))) := by
  have hplace := physical_eq_mod addr
  obtain ⟨-, h₀⟩ := h.byte_eq hin (i := 0) (by omega) (by omega)
  obtain ⟨hinside, h₁⟩ := h.byte_eq hin (i := 1) (by omega) (by omega)
  refine (read16_of_fits ⟨haligned, hinside⟩).trans ?_
  rw [Nat.add_zero] at h₀
  rw [h₀, h₁, halfAt, Nat.add_zero]

theorem read32_eq (h : BlockAt m base block) (haligned : addr.toNat % 4 = 0)
    (hin : InBlock base block.length addr 4) :
    Memory.read32 m addr = .ok (BigEndian.word (halfAt block (physical (addr - base)))
      (halfAt block (physical (addr - base) + 2))) := by
  have hplace := physical_eq_mod addr
  obtain ⟨-, h₀⟩ := h.byte_eq hin (i := 0) (by omega) (by omega)
  obtain ⟨-, h₁⟩ := h.byte_eq hin (i := 1) (by omega) (by omega)
  obtain ⟨-, h₂⟩ := h.byte_eq hin (i := 2) (by omega) (by omega)
  obtain ⟨hinside, h₃⟩ := h.byte_eq hin (i := 3) (by omega) (by omega)
  refine (read32_of_fits ⟨haligned, hinside⟩).trans ?_
  rw [Nat.add_zero] at h₀
  rw [h₀, h₁, h₂, h₃, halfAt, halfAt, Nat.add_zero]

/-! ## Two placements -/

variable (h : BlockAt m base block) (h' : BlockAt m' base' block)

theorem physical_shift (base base' addr : UInt32) :
    physical (addr + (base' - base) - base') = physical (addr - base) := by
  congr 1
  grind

include h h'

/-- The distance between the placements keeps the alignment. -/
theorem toNat_shift_mod {width : Nat} (hwidth : width ∣ 8) (addr : UInt32) :
    (addr + (base' - base)).toNat % width = addr.toNat % width := by
  have haligned := h.aligned
  have haligned' := h'.aligned
  have hshift : (addr + (base' - base)).toNat % 8 = addr.toNat % 8 := by
    rw [UInt32.toNat_add, UInt32.toNat_sub]
    have := base.toNat_lt
    omega
  rw [← Nat.mod_mod_of_dvd _ hwidth, hshift, Nat.mod_mod_of_dvd _ hwidth]

/-- A halfword in the block reads the same at both places. -/
theorem read16_shift (hin : InBlock base block.length addr 2) :
    (Memory.read16 m' (addr + (base' - base))).toOption = (Memory.read16 m addr).toOption := by
  have hmod := toNat_shift_mod h h' (show 2 ∣ 8 by decide) addr
  have hin' : InBlock base' block.length (addr + (base' - base)) 2 := by
    rwa [InBlock, physical_shift]
  by_cases haligned : addr.toNat % 2 = 0
  · rw [h.read16_eq haligned hin, h'.read16_eq (hmod.trans haligned) hin', physical_shift]
  · have hfault : Memory.read16 m addr = .error _ :=
      read16_of_not_fits fun hf ↦ haligned hf.aligned
    have hfault' : Memory.read16 m' (addr + (base' - base)) = .error _ :=
      read16_of_not_fits fun hf ↦ haligned (hmod.symm.trans hf.aligned)
    rw [hfault, hfault']
    rfl

/-- A word in the block reads the same at both places. -/
theorem read32_shift (hin : InBlock base block.length addr 4) :
    (Memory.read32 m' (addr + (base' - base))).toOption = (Memory.read32 m addr).toOption := by
  have hmod := toNat_shift_mod h h' (show 4 ∣ 8 by decide) addr
  have hin' : InBlock base' block.length (addr + (base' - base)) 4 := by
    rwa [InBlock, physical_shift]
  by_cases haligned : addr.toNat % 4 = 0
  · rw [h.read32_eq haligned hin, h'.read32_eq (hmod.trans haligned) hin', physical_shift]
  · have hfault : Memory.read32 m addr = .error _ :=
      read32_of_not_fits fun hf ↦ haligned hf.aligned
    have hfault' : Memory.read32 m' (addr + (base' - base)) = .error _ :=
      read32_of_not_fits fun hf ↦ haligned (hmod.symm.trans hf.aligned)
    rw [hfault, hfault']
    rfl

end BlockAt

end Rdram

/-! ## Instructions and records -/

section

variable {m m' : Rdram} {base base' addr : UInt32} {block : List UInt8}

open Rdram

theorem toOption_bind {ε α β : Type} (x : Except ε α) (f : α → Except ε β) :
    (x >>= f).toOption = x.toOption >>= fun a ↦ (f a).toOption := by
  cases x <;> rfl

/-- A vertex record in the block reads the same at both places. -/
theorem VertexLayout.read?_shift (h : BlockAt m base block) (h' : BlockAt m' base' block)
    {layout : VertexLayout} (hin : InBlock base block.length addr layout.stride.toNat) :
    layout.read? m' (addr + (base' - base)) = layout.read? m addr := by
  have hmove (offset : UInt32) :
      addr + (base' - base) + offset = addr + offset + (base' - base) := by
    grind
  have hhalf {offset : UInt32} (hpart : offset.toNat + 2 ≤ layout.stride.toNat) :
      (Memory.read16 m' (addr + (base' - base) + offset)).toOption =
        (Memory.read16 m (addr + offset)).toOption := by
    rw [hmove]
    exact h.read16_shift h' (hin.part hpart)
  have hword {offset : UInt32} (hpart : offset.toNat + 4 ≤ layout.stride.toNat) :
      (Memory.read32 m' (addr + (base' - base) + offset)).toOption =
        (Memory.read32 m (addr + offset)).toOption := by
    rw [hmove]
    exact h.read32_shift h' (hin.part hpart)
  cases layout <;> simp (disch := decide) only [read?, read, toOption_bind, hhalf, hword]

namespace DisplayList.Bytecode

theorem fetch_eq {μ : Type} [Memory μ] (m : μ) (addr : UInt32) :
    fetch m addr = (Memory.read32 m addr).toOption.bind fun w₀ ↦
      (Memory.read32 m (addr + 4)).toOption.map (Instruction.mk w₀) := by
  rw [fetch]
  cases Memory.read32 m addr <;> cases Memory.read32 m (addr + 4) <;> rfl

/-- An instruction in the block reads the same at both places. -/
theorem fetch_shift (h : BlockAt m base block) (h' : BlockAt m' base' block)
    (hin : InBlock base block.length addr 8) :
    fetch m' (addr + (base' - base)) = fetch m addr := by
  have hin₀ : InBlock base block.length (addr + 0) 4 := hin.part (by decide)
  have hin₁ : InBlock base block.length (addr + 4) 4 := hin.part (by decide)
  have hfirst := h.read32_shift h' hin₀
  have hsecond := h.read32_shift h' hin₁
  have hmove : addr + (base' - base) + 4 = addr + 4 + (base' - base) := by grind
  rw [UInt32.add_zero] at hfirst
  rw [fetch_eq, fetch_eq, hmove, hfirst, hsecond]

end DisplayList.Bytecode

end

end DisplayRaster
