import DisplayRaster.Proofs.Draw.Sequence
import DisplayRaster.Stream.Interpreter

/-!
# What a stream can write

A stream may be any bytes at all, and it may rewrite itself while it runs.  Even so a run is a list
of commands applied one after another: `Stream.executed` lists those that the run fetched, and
`Stream.render_eq_applyAll` says that nothing else happened.  So a run writes only what lists of
commands write (`Command.frame_applyAll`): pixels of the framebuffer and samples of depth buffers
that it declared itself.
-/

set_option autoImplicit false

namespace DisplayRaster

namespace Stream

variable {μ : Type} [Memory μ]

/-- The commands that `runFor` executes, in order. -/
def executedFor (fb : Framebuffer) : (fuel : Nat) → RenderState → μ → Cursor → List Command
  | 0, _, _, _ => []
  | fuel + 1, st, m, cursor =>
    match fetch m cursor with
    | .error _ => []
    | .ok (instruction, cursor) =>
      let c := instruction.command
      c :: executedFor fb fuel (c.select fb st m) (c.draw fb st m) cursor

/-- The commands that the stream at `start` executes on at most `budget` words. -/
def executed (fb : Framebuffer) (m : μ) (start : UInt32) (budget : Nat) : List Command :=
  executedFor fb budget (.initial fb.width fb.height) m ⟨start, budget⟩

theorem runFor_eq_applyAll (fb : Framebuffer) (fuel : Nat) (st : RenderState) (m : μ)
    (cursor : Cursor) :
    ((runFor fb fuel st m cursor).state, (runFor fb fuel st m cursor).memory) =
      Command.applyAll fb (executedFor fb fuel st m cursor) st m := by
  induction fuel generalizing st m cursor with
  | zero => rfl
  | succ fuel ih =>
    rw [runFor, executedFor]
    cases fetch m cursor with
    | error halt => rfl
    | ok next => exact ih _ _ next.2

/-- **A run is the list of the commands it executes.** -/
theorem render_eq_applyAll (fb : Framebuffer) (m : μ) (start : UInt32) (budget : Nat) :
    render fb m start budget =
      (Command.applyAll fb (executed fb m start budget) (.initial fb.width fb.height) m).2 :=
  congrArg Prod.snd (runFor_eq_applyAll fb budget (.initial fb.width fb.height) m ⟨start, budget⟩)

/-- **A stream writes nothing but its targets.**  Whatever the stream is, a byte that differs after
the run belongs to a pixel of the framebuffer or to a sample of a depth buffer that the run has
declared, and memory keeps its size. -/
theorem render_writes_only_targets {fb : Framebuffer} (hfb : fb.Signed) (m : Rdram)
    (start : UInt32) (budget : Nat) :
    (render fb m start budget).size = m.size ∧
      ∀ i, (render fb m start budget).byte i ≠ m.byte i →
        (∃ x y : Int, 0 ≤ x ∧ x < fb.width.toNat ∧ 0 ≤ y ∧ y < fb.height.toNat ∧
          Rdram.InHalf (fb.addressOf x y) i) ∨
        ∃ z : DepthBuffer, .setDepthBuffer z ∈ executed fb m start budget ∧
          ∃ k < z.width.toNat * z.height.toNat,
            Rdram.InHalf (z.addr + UInt32.ofNat (2 * k)) i := by
  have hframe : Rdram.Frame
      (fun i ↦ fb.Owns i ∨ ∃ z, .setDepthBuffer z ∈ executed fb m start budget ∧ z.Owns i)
      m (render fb m start budget) := by
    rw [render_eq_applyAll fb m start budget]
    exact Command.frame_applyAll hfb (RenderState.confined_initial hfb fun i hi ↦ .inl hi)
      (fun z hz i hi ↦ .inr ⟨z, hz, hi⟩) m
  refine ⟨hframe.size_eq, fun i hi ↦ ?_⟩
  rcases hframe.mem_of_byte_ne hi with ⟨x, y, hxy, hi⟩ | ⟨z, hz, hi⟩
  · rw [Framebuffer.contains, inExtent_eq_true] at hxy
    obtain ⟨hx, hy, hxw, hyh⟩ := hxy
    exact .inl ⟨x, y, hx, hxw, hy, hyh, hi⟩
  · exact .inr ⟨z, hz, hi⟩

/-- Clearing a depth buffer of four samples, the last of which ends at byte 71. -/
theorem render_writes_only_targets_clear :
    let fb : Framebuffer := ⟨128, 2, 2, 2⟩
    let m := (Memory.writeWords (Rdram.zeroed 256) 0 [0x51, 64, 2, 2, 0x52, 7]).memory
    (render fb m 0 16).byte 71 ≠ m.byte 71 ∧
      ((∃ x y : Int, 0 ≤ x ∧ x < fb.width.toNat ∧ 0 ≤ y ∧ y < fb.height.toNat ∧
          Rdram.InHalf (fb.addressOf x y) 71) ∨
        ∃ z : DepthBuffer, .setDepthBuffer z ∈ executed fb m 0 16 ∧
          ∃ k < z.width.toNat * z.height.toNat,
            Rdram.InHalf (z.addr + UInt32.ofNat (2 * k)) 71) := by
  intro fb m
  have hne : (render fb m 0 16).byte 71 ≠ m.byte 71 := by decide +kernel
  exact ⟨hne, (render_writes_only_targets ⟨by decide, by decide⟩ m 0 16).2 71 hne⟩

end Stream

end DisplayRaster
