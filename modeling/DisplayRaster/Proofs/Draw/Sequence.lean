import DisplayRaster.Proofs.Draw.Targets

/-!
# Sequences of commands

`Command.applyAll` is the meaning of a list of commands without any stream: each command is applied
to what the commands before it have left behind.  Translators and streams are compared by it.
-/

set_option autoImplicit false

namespace DisplayRaster

namespace Command

variable {μ : Type} [Memory μ]

/-- The state and the memory after a list of commands. -/
def applyAll (fb : Framebuffer) : List Command → RenderState → μ → RenderState × μ
  | [], st, m => (st, m)
  | c :: cs, st, m => applyAll fb cs (c.apply fb st m).1 (c.apply fb st m).2

theorem applyAll_cons (fb : Framebuffer) (c : Command) (cs : List Command) (st : RenderState)
    (m : μ) : applyAll fb (c :: cs) st m = applyAll fb cs (c.select fb st m) (c.draw fb st m) :=
  rfl

/-! ## Targets -/

variable {s : Nat → Prop} {fb : Framebuffer} {st : RenderState}

/-- **A list of commands writes only pixels of the framebuffer and samples of the depth buffers it
starts with or declares.** -/
theorem frame_applyAll (hfb : fb.Signed) (h : st.Confined s fb) {cs : List Command}
    (hset : ∀ z, .setDepthBuffer z ∈ cs → ∀ i, z.Owns i → s i) (m : Rdram) :
    Rdram.Frame s m (applyAll fb cs st m).2 := by
  induction cs generalizing st m with
  | nil => exact Rdram.Frame.refl s m
  | cons c cs ih =>
    refine (frame_draw h c m).trans (ih ?_ (fun z hz ↦ hset z (by simp [hz])) _)
    exact confined_select hfb h (fun z hz ↦ hset z (by simp [hz])) m

end Command

end DisplayRaster
