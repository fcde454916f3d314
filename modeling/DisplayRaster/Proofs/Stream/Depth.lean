import DisplayRaster.Proofs.Draw.Depth
import DisplayRaster.Proofs.Stream.Targets

/-!
# Depth samples over a stream

Once a depth buffer has been declared, its samples change in two ways only: the buffer is cleared,
or a fragment that is drawn comes nearer.  So from the last clearing on samples only decrease, and
every change belongs to a pixel written at the same time (`Stream.executed_guardsDepth`).  This
holds of whatever the stream executes, also of a stream that rewrites itself.
-/

set_option autoImplicit false

namespace DisplayRaster

/-- The depth buffer in force is `z`, and its samples are private. -/
structure RenderState.Settled (st : RenderState) (fb : Framebuffer) (z : DepthBuffer) (m : Rdram) :
    Prop where
  depth_eq : st.depth = z
  scissor : st.scissor.Grounded fb
  samples : z.Private fb m

namespace Command

variable {fb : Framebuffer} {z : DepthBuffer} {st : RenderState} {m : Rdram} {cs : List Command}

theorem applyAll_append (fb : Framebuffer) (cs ds : List Command) (st : RenderState) (m : Rdram) :
    applyAll fb (cs ++ ds) st m =
      applyAll fb ds (applyAll fb cs st m).1 (applyAll fb cs st m).2 := by
  induction cs generalizing st m with
  | nil => rfl
  | cons c cs ih => exact ih _ _

theorem size_applyAll (fb : Framebuffer) (cs : List Command) (st : RenderState) (m : Rdram) :
    (applyAll fb cs st m).2.size = m.size := by
  induction cs generalizing st m with
  | nil => rfl
  | cons c cs ih => exact (ih _ _).trans (size_draw fb c st m)

theorem grounded_applyAll (h : st.scissor.Grounded fb) (cs : List Command) (m : Rdram) :
    (applyAll fb cs st m).1.scissor.Grounded fb := by
  induction cs generalizing st m with
  | nil => exact h
  | cons c cs ih => exact ih (grounded_select h c m) _

/-- Only declaring another depth buffer ends the one in force. -/
theorem settled_apply (h : st.Settled fb z m) {c : Command} (hset : ∀ z', c ≠ .setDepthBuffer z') :
    (c.select fb st m).Settled fb z (c.draw fb st m) where
  depth_eq := by
    cases c with
    | setDepthBuffer z' => exact absurd rfl (hset z')
    | _ => exact h.depth_eq
  scissor := grounded_select h.scissor c m
  samples := h.samples.congr (size_draw fb c st m)

theorem settled_applyAll (h : st.Settled fb z m) (hset : ∀ z', .setDepthBuffer z' ∉ cs) :
    (applyAll fb cs st m).1.Settled fb z (applyAll fb cs st m).2 := by
  induction cs generalizing st m with
  | nil => exact h
  | cons c cs ih =>
    have hhead : ∀ z', c ≠ .setDepthBuffer z' := fun z' hc ↦ hset z' (by simp [hc])
    exact ih (settled_apply h hhead) fun z' hz' ↦ hset z' (by simp [hz'])

/-- **Without clearing, samples only decrease.** -/
theorem stored_applyAll_le (h : st.Settled fb z m) (hset : ∀ z', .setDepthBuffer z' ∉ cs)
    (hclear : ∀ value, .clearDepth value ∉ cs) (x y : Int) :
    z.stored (applyAll fb cs st m).2 x y ≤ z.stored m x y := by
  induction cs generalizing st m with
  | nil => exact UInt16.le_refl _
  | cons c cs ih =>
    have hhead : ∀ z', c ≠ .setDepthBuffer z' := fun z' hc ↦ hset z' (by simp [hc])
    have hstep := guardsDepth h.samples h.depth_eq h.scissor (c := c) fun value hc ↦
      hclear value (by simp [hc])
    have hrest := ih (settled_apply h hhead) (fun z' hz' ↦ hset z' (by simp [hz']))
      fun value hvalue ↦ hclear value (by simp [hvalue])
    exact UInt16.le_trans hrest (hstep.le x y)

end Command

namespace Stream

open Command

/-- **Depth only decreases, and only under a written pixel.**  In a run that declares the depth
buffer `z` last and from some point on does not clear it, each command after that point guards the
samples in the state that it finds, and no sample is ever greater than it was earlier. -/
theorem executed_guardsDepth {fb : Framebuffer} {m : Rdram} {start : UInt32} {budget : Nat}
    {z : DepthBuffer} {early late after : List Command}
    (hrun : executed fb m start budget = early ++ .setDepthBuffer z :: late ++ after)
    (hset : ∀ z', .setDepthBuffer z' ∉ late ++ after)
    (hclear : ∀ value, .clearDepth value ∉ after) (hz : z.Private fb m) :
    let reached (done : List Command) : RenderState × Rdram :=
      applyAll fb (early ++ .setDepthBuffer z :: late ++ done) (.initial fb.width fb.height) m
    (reached after).2 = render fb m start budget ∧
    (∀ done c rest, after = done ++ c :: rest →
      c.GuardsDepth fb z (reached done).1 (reached done).2) ∧
    ∀ done more rest, after = done ++ more ++ rest → ∀ x y,
      z.stored (reached (done ++ more)).2 x y ≤ z.stored (reached done).2 x y := by
  intro reached
  have hset_late : ∀ z', .setDepthBuffer z' ∉ late := fun z' h ↦ hset z' (by simp [h])
  have hset_after : ∀ z', .setDepthBuffer z' ∉ after := fun z' h ↦ hset z' (by simp [h])
  have hstart : (reached []).1.Settled fb z (reached []).2 := by
    have hearly := applyAll_append fb early (.setDepthBuffer z :: late)
      (.initial fb.width fb.height) m
    have hinitial : (RenderState.initial fb.width fb.height).scissor.Grounded fb :=
      Scissor.grounded_full fb
    have hground := grounded_applyAll hinitial early m
    have hsize := size_applyAll fb early (.initial fb.width fb.height) m
    simp only [reached, List.append_nil, hearly, applyAll_cons]
    exact settled_applyAll ⟨rfl, hground, hz.congr hsize⟩ hset_late
  have hsplit (done more : List Command) :
      reached (done ++ more) = applyAll fb more (reached done).1 (reached done).2 := by
    simp only [reached, ← applyAll_append, List.append_assoc]
  have hsettled {done rest : List Command} (hafter : after = done ++ rest) :
      (reached done).1.Settled fb z (reached done).2 := by
    have hset_done : ∀ z', .setDepthBuffer z' ∉ done :=
      fun z' hz' ↦ hset_after z' (by simp [hafter, hz'])
    have h := settled_applyAll hstart hset_done
    rwa [← hsplit] at h
  refine ⟨?_, fun done c rest hafter ↦ ?_, fun done more rest hafter x y ↦ ?_⟩
  · rw [render_eq_applyAll, hrun]
  · have h := hsettled hafter
    refine guardsDepth h.samples h.depth_eq h.scissor fun value hc ↦ hclear value ?_
    simp [hafter, hc]
  · have h := hsettled (hafter.trans (List.append_assoc done more rest))
    rw [hsplit]
    refine stored_applyAll_le h (fun z' hz' ↦ hset_after z' ?_) (fun value hv ↦ hclear value ?_) x y
    · simp [hafter, hz']
    · simp [hafter, hv]

/-- A triangle over a cleared depth buffer of four samples. -/
theorem executed_guardsDepth_triangle :
    let fb : Framebuffer := ⟨96, 2, 2, 2⟩
    let z : DepthBuffer := ⟨128, 2, 2⟩
    let m := (Memory.writeWords (Rdram.zeroed 256) 0
      [0x51, 128, 2, 2, 0x52, 0xFFFF, 0x50, 1, 0x53, 0, 0, 9, 2, 0, 9, 0, 2, 9]).memory
    let v : Corners Vertex :=
      ⟨⟨0, 0, 0, 0, 0x10000, 9⟩, ⟨2, 0, 0, 0, 0x10000, 9⟩, ⟨0, 2, 0, 0, 0x10000, 9⟩⟩
    let reached (done : List Command) : RenderState × Rdram :=
      Command.applyAll fb ([] ++ .setDepthBuffer z :: [.clearDepth 0xFFFF] ++ done)
        (.initial fb.width fb.height) m
    executed fb m 0 18 =
      [.setDepthBuffer z, .clearDepth 0xFFFF, .setDepthEnabled true, .solidTriangleDepth v] ∧
    (Command.solidTriangleDepth v).GuardsDepth fb z (reached [.setDepthEnabled true]).1
      (reached [.setDepthEnabled true]).2 ∧
    z.stored (reached []).2 0 0 = 0xFFFF ∧ z.stored (render fb m 0 18) 0 0 = 9 := by
  intro fb z m v reached
  have hrun : executed fb m 0 18 =
      [] ++ .setDepthBuffer z :: [.clearDepth 0xFFFF] ++
        [.setDepthEnabled true, .solidTriangleDepth v] := by decide +kernel
  have hsize : m.size = 256 := by decide +kernel
  have hz : z.Private fb m :=
    DepthBuffer.private_of_le ⟨by decide, by decide⟩ (by decide) ⟨by decide, by decide⟩ (by decide)
      (by rw [hsize]; decide)
  obtain ⟨-, hguards, -⟩ := executed_guardsDepth hrun (by simp) (by simp) hz
  exact ⟨hrun, hguards [.setDepthEnabled true] _ [] rfl, by decide +kernel, by decide +kernel⟩

end Stream

end DisplayRaster
