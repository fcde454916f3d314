import DisplayRaster.Proofs.Draw.Sequence
import DisplayRaster.Proofs.Stream.Codec

/-!
# Running what was written

`Stream.delivered` is what is left of a list of commands once it has been through a stream: the
commands before the first end command, each as far as its opcode carries it.  Running the stream of
a list is applying the delivered commands one after another (`Stream.run_write`), provided that the
run does not overwrite the stream.  `Stream.kept_of_apart` gives a way to see this beforehand: the
slot of the stream is apart from everything that the commands can write.
-/

set_option autoImplicit false

namespace DisplayRaster

namespace Stream

open Rdram (InWords Frame)
open Command (applyAll)

/-- The commands that a stream delivers. -/
def delivered (cs : List Command) : List Command :=
  (cs.takeWhile (· ≠ .finish)).map Command.carried

theorem delivered_cons {c : Command} (hc : c ≠ .finish) (cs : List Command) :
    delivered (c :: cs) = c.carried :: delivered cs := by
  rw [delivered, List.takeWhile_cons_of_pos (by simpa using hc)]
  rfl

/-! ## Steps of a run -/

section Steps

variable {μ : Type} [Memory μ] {m : μ} {addr : UInt32} {budget : Nat}

/-- A run executes the first command of its stream and goes on behind it. -/
theorem runFor_cons (fb : Framebuffer) (fuel : Nat) (st : RenderState) {c : Command}
    (hc : c ≠ .finish) (h : Memory.Holds m addr c.words) (hb : c.words.length ≤ budget) :
    runFor fb (fuel + 1) st m ⟨addr, budget⟩ =
      runFor fb fuel (c.carried.select fb st m) (c.carried.draw fb st m)
        ⟨addr + 4 * UInt32.ofNat c.words.length, budget - c.words.length⟩ := by
  rw [runFor, fetch_of_holds hc h hb]
  simp only [Instruction.command, Command.command_operandVector]
  rfl

/-- A run stops at the end command. -/
theorem runFor_finish (fb : Framebuffer) (fuel : Nat) (st : RenderState) {ws : List UInt32}
    (h : Memory.Holds m addr (Opcode.tag .finish :: ws)) (hb : budget ≠ 0) :
    runFor fb (fuel + 1) st m ⟨addr, budget⟩ = ⟨.finished, st, m⟩ := by
  rw [runFor, fetch_of_holds_finish h hb]

end Steps

/-! ## Whole runs -/

variable {fb : Framebuffer} {st : RenderState} {m m' : Rdram} {addr : UInt32} {budget : Nat}

/-- A stream that stays what it is while it runs has the effect of the commands it delivers. -/
theorem runFor_encode {fuel : Nat} {cs : List Command}
    (hin : Rdram.physical addr + 4 * (encode cs).length < 2 ^ 29)
    (hheld : Memory.Holds m addr (encode cs))
    (hkept : ∀ k i, InWords addr (encode cs).length i →
      (runFor fb k st m ⟨addr, budget⟩).memory.byte i = m.byte i)
    (hb : (encode cs).length ≤ budget) (hfuel : budget ≤ fuel) :
    runFor fb fuel st m ⟨addr, budget⟩ =
      ⟨.finished, (applyAll fb (delivered cs) st m).1, (applyAll fb (delivered cs) st m).2⟩ := by
  induction cs generalizing fuel st m addr budget with
  | nil =>
    rw [encode_nil] at hheld hb
    obtain ⟨fuel, rfl⟩ : ∃ k, fuel = k + 1 := ⟨fuel - 1, by simp at hb; omega⟩
    exact runFor_finish fb fuel st hheld (by simp at hb; omega)
  | cons c cs ih =>
    by_cases hc : c = .finish
    · subst hc
      obtain ⟨ws, hws⟩ := encode_finish cs
      rw [hws] at hheld hb
      obtain ⟨fuel, rfl⟩ : ∃ k, fuel = k + 1 := ⟨fuel - 1, by simp at hb; omega⟩
      exact runFor_finish fb fuel st hheld (by simp at hb; omega)
    · have hlen := c.length_words
      rw [encode_cons hc] at hheld
      rw [encode_cons hc, List.length_append] at hin hb hkept
      obtain ⟨fuel, rfl⟩ : ∃ k, fuel = k + 1 := ⟨fuel - 1, by omega⟩
      have hhead := (Memory.holds_append.1 hheld).1
      have hstep (k : Nat) := runFor_cons fb k st hc hhead (by omega : _ ≤ budget)
      have hfirst : ∀ i, InWords addr (c.words.length + (encode cs).length) i →
          (c.carried.draw fb st m).byte i = m.byte i := by
        intro i hi
        have h := hkept 1 i hi
        rwa [hstep] at h
      rw [delivered_cons hc, Command.applyAll_cons, hstep]
      refine ih ?_ (Rdram.holds_tail hin (Command.size_draw fb _ st m) hfirst hheld)
        (fun k i hi ↦ ?_) (by omega) (by omega)
      · rw [Rdram.physical_add_words (by omega)]
        omega
      · have h := hkept (k + 1) i (hi.of_tail hin)
        rw [hstep] at h
        exact h.trans (hfirst i (hi.of_tail hin)).symm

/-- A stream apart from everything that its commands can write writes nothing else. -/
theorem frame_runFor {s : Nat → Prop} (hfb : fb.Signed) (hst : st.Confined s fb)
    {cs : List Command} (hset : ∀ z, .setDepthBuffer z ∈ cs → ∀ i, z.Owns i → s i)
    (hin : Rdram.physical addr + 4 * (encode cs).length < 2 ^ 29)
    (hheld : Memory.Holds m addr (encode cs))
    (hapart : ∀ i, InWords addr (encode cs).length i → ¬ s i)
    (hb : (encode cs).length ≤ budget) (fuel : Nat) :
    Frame s m (runFor fb fuel st m ⟨addr, budget⟩).memory := by
  induction cs generalizing fuel st m addr budget with
  | nil =>
    rw [encode_nil] at hheld hb
    cases fuel with
    | zero => exact Frame.refl s m
    | succ fuel =>
      rw [runFor_finish fb fuel st hheld (by simp at hb; omega)]
      exact Frame.refl s m
  | cons c cs ih =>
    cases fuel with
    | zero => exact Frame.refl s m
    | succ fuel =>
      by_cases hc : c = .finish
      · subst hc
        obtain ⟨ws, hws⟩ := encode_finish cs
        rw [hws] at hheld hb
        rw [runFor_finish fb fuel st hheld (by simp at hb; omega)]
        exact Frame.refl s m
      · have hlen := c.length_words
        rw [encode_cons hc] at hheld
        rw [encode_cons hc, List.length_append] at hin hb hapart
        have hhead := (Memory.holds_append.1 hheld).1
        have hdraw := Command.frame_draw hst c.carried m
        have hset₁ : ∀ z, c.carried = .setDepthBuffer z → ∀ i, z.Owns i → s i := by
          intro z hz
          exact hset z (by simp [← Command.carried_eq_setDepthBuffer.1 hz])
        rw [runFor_cons fb fuel st hc hhead (by omega)]
        refine hdraw.trans (ih (Command.confined_select hfb hst hset₁ m)
          (fun z hz ↦ hset z (by simp [hz])) ?_ ?_ (fun i hi ↦ hapart i (hi.of_tail hin))
          (by omega) fuel)
        · rw [Rdram.physical_add_words (by omega)]
          omega
        · exact Rdram.holds_tail hin hdraw.size_eq (fun i hi ↦ hdraw.byte_eq i (hapart i hi)) hheld

/-! ## Written streams -/

theorem writeWords_of_write {μ : Type} [Memory μ] {m m' : μ} {slot n : Nat} {cs : List Command}
    (h : write m addr slot cs = (m', .ok n)) :
    Memory.writeWords m addr (encode cs) = ⟨m', none⟩ ∧ n = (encode cs).length := by
  rw [write] at h
  split at h
  · cases h
  · split at h
    · next hwords =>
      cases h
      exact ⟨hwords, rfl⟩
    · cases h

/-- A stream whose slot is apart from the framebuffer and from the depth buffers that its commands
declare stays what it is while it runs. -/
theorem kept_of_apart {slot n : Nat} {cs : List Command} (hsize : m.size < 2 ^ 29)
    (hw : write m addr slot cs = (m', .ok n)) (hb : n ≤ budget) (hfb : fb.Signed)
    (hpixel : ∀ i, InWords addr n i → ¬ fb.Owns i)
    (hsample : ∀ z, .setDepthBuffer z ∈ cs → ∀ i, InWords addr n i → ¬ z.Owns i) (k i : Nat)
    (hi : InWords addr n i) :
    (runFor fb k (.initial fb.width fb.height) m' ⟨addr, budget⟩).memory.byte i = m'.byte i := by
  obtain ⟨hwords, rfl⟩ := writeWords_of_write hw
  have hin := Rdram.inside_of_writeWords hsize (encode_ne_nil cs) hwords
  have hst : RenderState.Confined (fun i ↦ ¬ InWords addr (encode cs).length i) fb
      (.initial fb.width fb.height) :=
    RenderState.confined_initial hfb fun i hi hslot ↦ hpixel i hslot hi
  have hframe := frame_runFor hfb hst (fun z hz i hi hslot ↦ hsample z hz i hslot hi) (by omega)
    (Rdram.holds_writeWords (by omega) hwords) (fun i hi ↦ not_not_intro hi) hb k
  exact hframe.byte_eq i (not_not_intro hi)

/-- **Running what was written is applying what was delivered.**  When the stream of a list of
commands has been written and no byte of its slot changes while it runs, every run with enough words
ends at an end command and leaves the memory that the delivered commands leave, applied in order
from the initial state.  The length that `write` gives is the number of words of all the commands,
and of the end command that `encode` may have to add. -/
theorem run_write {slot n : Nat} {cs : List Command} (hsize : m.size < 2 ^ 29)
    (hw : write m addr slot cs = (m', .ok n)) (hb : n ≤ budget)
    (hkept : ∀ k i, InWords addr n i →
      (runFor fb k (.initial fb.width fb.height) m' ⟨addr, budget⟩).memory.byte i = m'.byte i) :
    (run fb (.initial fb.width fb.height) m' ⟨addr, budget⟩).halt = .finished ∧
      render fb m' addr budget =
        (applyAll fb (delivered cs) (.initial fb.width fb.height) m').2 ∧
      n = (cs.map fun c ↦ 1 + c.opcode.operandCount).sum + if isFinished cs then 0 else 1 := by
  obtain ⟨hwords, rfl⟩ := writeWords_of_write hw
  have hin := Rdram.inside_of_writeWords hsize (encode_ne_nil cs) hwords
  have hheld := Rdram.holds_writeWords (by omega) hwords
  have hrun := runFor_encode (by omega) hheld hkept hb (Nat.le_refl budget)
  refine ⟨congrArg Outcome.halt hrun, congrArg Outcome.memory hrun, length_encode cs⟩

/-- A gradient behind a bank with a number too large for its field, in a stream at address zero. -/
theorem run_write_gradient :
    let fb : Framebuffer := ⟨48, 1, 1, 2⟩
    let cs : List Command := [.setBank 0x13, .gradient 7 7, .setFilter .nearest]
    let m := (write (Rdram.zeroed 64) 0 8 cs).1
    (run fb (.initial 1 2) m ⟨0, 8⟩).halt = .finished ∧
      render fb m 0 8 =
        (applyAll fb [.setBank 3, .gradient 7 7, .setFilter .nearest] (.initial 1 2) m).2 ∧
      (render fb m 0 8).byte 49 = 7 := by
  intro fb cs m
  have hw : write (Rdram.zeroed 64) 0 8 cs = (m, .ok 8) := Prod.ext rfl rfl
  have hsize : (Rdram.zeroed 64).size < 2 ^ 29 := by rw [Rdram.size_zeroed]; omega
  have hpixel : ∀ i, InWords 0 8 i → ¬ fb.Owns i := by
    rintro i ⟨-, hi⟩ ⟨x, y, hxy, hown⟩
    rw [Framebuffer.contains, inExtent_eq_true] at hxy
    obtain ⟨hx, hy, hxw, hyh⟩ := hxy
    have hx0 : x = 0 := by simp [fb] at hxw; omega
    have hy0 : y = 0 ∨ y = 1 := by simp [fb] at hyh; omega
    have hi : i < 32 := hi
    rcases hy0 with hy0 | hy0
    · subst hx0 hy0
      have h : Rdram.physical (fb.addressOf 0 0) = 48 := by decide
      rcases hown with hown | hown <;> omega
    · subst hx0 hy0
      have h : Rdram.physical (fb.addressOf 0 1) = 50 := by decide
      rcases hown with hown | hown <;> omega
  have hkept := kept_of_apart hsize hw (Nat.le_refl 8) ⟨by decide, by decide⟩ hpixel
    (fun z hz ↦ absurd hz (by simp [cs]))
  obtain ⟨hhalt, hmemory, -⟩ := run_write hsize hw (Nat.le_refl 8) hkept
  exact ⟨hhalt, hmemory, by decide⟩

end Stream

end DisplayRaster
