import DisplayRaster.Memory.Rdram.Bytes
import Mathlib.Algebra.Ring.Nat

/-!
# What a computation leaves alone

`Rdram.Frame s m m'` says that `m'` is `m` with at most the bytes in `s` replaced.  Draws are long
sequences of halfword writes, so all that is needed to confine one is `Frame.write16` for each
write and `Frame.foldl` for the sequence; nothing has to be known of the values written.
-/

set_option autoImplicit false

namespace DisplayRaster

namespace Rdram

variable {s t : Nat → Prop} {m m₁ m₂ : Rdram}

/-- The two physical bytes of the halfword at an address. -/
def InHalf (addr : UInt32) (i : Nat) : Prop := i = physical addr ∨ i = physical addr + 1

/-- `m₁` has the size of `m` and agrees with it on every byte outside `s`. -/
structure Frame (s : Nat → Prop) (m m₁ : Rdram) : Prop where
  size_eq : m₁.size = m.size
  byte_eq : ∀ i, ¬ s i → m₁.byte i = m.byte i

namespace Frame

theorem refl (s : Nat → Prop) (m : Rdram) : Frame s m m := ⟨rfl, fun _ _ ↦ rfl⟩

theorem trans (h₁ : Frame s m m₁) (h₂ : Frame s m₁ m₂) : Frame s m m₂ :=
  ⟨h₂.size_eq.trans h₁.size_eq, fun i hi ↦ (h₂.byte_eq i hi).trans (h₁.byte_eq i hi)⟩

theorem mono (h : Frame s m m₁) (hst : ∀ i, s i → t i) : Frame t m m₁ :=
  ⟨h.size_eq, fun i hi ↦ h.byte_eq i fun hs ↦ hi (hst i hs)⟩

/-- A byte that differs lies in the frame. -/
theorem mem_of_byte_ne (h : Frame s m m₁) {i : Nat} (hi : m₁.byte i ≠ m.byte i) : s i :=
  Classical.byContradiction fun hs ↦ hi (h.byte_eq i hs)

/-- A halfword write stays inside a frame that has its two bytes, whether it succeeds or not. -/
theorem write16 (m : Rdram) {addr : UInt32} (value : UInt16) (h : ∀ i, InHalf addr i → s i) :
    Frame s m (Memory.write16 m addr value).memory := by
  refine ⟨size_write16 m addr value, fun i hi ↦ ?_⟩
  show (m.write16 addr value).memory.byte i = m.byte i
  by_cases hf : m.Fits addr 2
  · rw [byte_write16 value hf, if_neg fun he ↦ hi (h i (.inl he)),
      if_neg fun he ↦ hi (h i (.inr he))]
  · rw [write16_of_not_fits value hf]

/-- A sequence of steps stays inside a frame that each of its steps stays inside. -/
theorem foldl {α : Type} {f : Rdram → α → Rdram} {l : List α}
    (h : ∀ m, ∀ a ∈ l, Frame s m (f m a)) (m : Rdram) : Frame s m (l.foldl f m) := by
  induction l generalizing m with
  | nil => exact refl s m
  | cons a l ih =>
    exact (h m a (by simp)).trans (ih (fun m b hb ↦ h m b (by simp [hb])) (f m a))

end Frame

end Rdram

end DisplayRaster
