import DisplayRaster.Command
import DisplayRaster.Proofs.Memory.Frame

/-!
# Where draws write

A draw writes pixels of the framebuffer and samples of the depth buffer, and nothing else.
`Framebuffer.Owns` and `DepthBuffer.Owns` are the bytes of the two; `Command.frame_draw` confines
every command to them.

Most draws test each pixel against the framebuffer before they write it.  A gradient does not: it
fills the scissor, whatever that is.  So it matters that the scissor never leaves the framebuffer
(`Scissor.Inside`), which holds at the start of a stream and after every change of the scissor.
-/

set_option autoImplicit false

namespace DisplayRaster

open Rdram

/-! ## Target bytes -/

/-- The bytes of the pixels of a framebuffer. -/
def Framebuffer.Owns (fb : Framebuffer) (i : Nat) : Prop :=
  ∃ x y : Int, fb.contains x y = true ∧ InHalf (fb.addressOf x y) i

/-- The bytes of the samples of a depth buffer, counted row by row. -/
def DepthBuffer.Owns (z : DepthBuffer) (i : Nat) : Prop :=
  ∃ k < z.sampleCount, InHalf (z.addr + UInt32.ofNat (2 * k)) i

/-- A stream starts without depth samples. -/
theorem RenderState.not_owns_initial (width height : UInt32) (i : Nat) :
    ¬ (initial width height).depth.Owns i := by
  rintro ⟨k, hk, -⟩
  exact absurd hk (by simp [initial, DepthBuffer.unset, DepthBuffer.sampleCount])

theorem coordWord_natCast (n : Nat) : coordWord n = UInt32.ofNat n := rfl

/-- The sample of a pixel is the one at its place in the row by row order, also where the address
wraps around. -/
theorem DepthBuffer.addressOf_natCast (z : DepthBuffer) (x y : Nat) :
    z.addressOf x y = z.addr + UInt32.ofNat (2 * (y * z.width.toNat + x)) := by
  rw [addressOf, coordWord_natCast, coordWord_natCast, UInt32.ofNat_mul, UInt32.ofNat_add,
    UInt32.ofNat_mul, UInt32.ofNat_toNat, UInt32.mul_comm _ 2]
  rfl

theorem DepthBuffer.owns_of_contains {z : DepthBuffer} {x y : Int} (h : z.contains x y = true)
    {i : Nat} (hi : InHalf (z.addressOf x y) i) : z.Owns i := by
  rw [contains, inExtent_eq_true] at h
  obtain ⟨hx, hy, hxw, hyh⟩ := h
  obtain ⟨x, rfl⟩ := Int.eq_ofNat_of_zero_le hx
  obtain ⟨y, rfl⟩ := Int.eq_ofNat_of_zero_le hy
  rw [addressOf_natCast] at hi
  refine ⟨y * z.width.toNat + x, ?_, hi⟩
  have hx' : x < z.width.toNat := by omega
  have hy' : y < z.height.toNat := by omega
  calc y * z.width.toNat + x
      < (y + 1) * z.width.toNat := by rw [Nat.succ_mul]; omega
    _ ≤ z.height.toNat * z.width.toNat := Nat.mul_le_mul_right _ hy'
    _ = z.sampleCount := Nat.mul_comm _ _

/-! ## Scissors inside the framebuffer -/

/-- Every pixel of the scissor is a pixel of the framebuffer. -/
def Scissor.Inside (r : Scissor) (fb : Framebuffer) : Prop :=
  ∀ x y : Int, r.contains x y = true → fb.contains x y = true

/-- A framebuffer whose sides are signed words. -/
structure Framebuffer.Signed (fb : Framebuffer) : Prop where
  width_lt : fb.width.toNat < 2 ^ 31
  height_lt : fb.height.toNat < 2 ^ 31

theorem toInt_toInt32_of_lt {n : UInt32} (h : n.toNat < 2 ^ 31) : n.toInt32.toInt = n.toNat :=
  BitVec.toInt_eq_toNat_of_lt (show 2 * n.toNat < 2 ^ 32 by omega)

theorem Scissor.inside_full {fb : Framebuffer} (h : fb.Signed) :
    (Scissor.full fb.width fb.height).Inside fb := by
  intro x y hxy
  rw [contains_eq_true] at hxy
  rw [Framebuffer.contains, inExtent_eq_true]
  simp only [full, toInt_toInt32_of_lt h.width_lt, toInt_toInt32_of_lt h.height_lt] at hxy
  have h0 : (0 : Int32).toInt = 0 := rfl
  omega

theorem RenderState.inside_initial {fb : Framebuffer} (h : fb.Signed) :
    (initial fb.width fb.height).scissor.Inside fb := by
  simp only [initial]
  exact Scissor.inside_full h

/-- A clamped scissor lies in the framebuffer, whatever its corners were. -/
theorem Scissor.inside_clamped {fb : Framebuffer} (h : fb.Signed) (r : Scissor) :
    (r.clamped fb.width fb.height).Inside fb := by
  intro x y hxy
  have hw := toInt_toInt32_of_lt h.width_lt
  have hh := toInt_toInt32_of_lt h.height_lt
  rw [contains_eq_true] at hxy
  have hx (v : Int32) :
      (clampTo fb.width.toInt32 v).toInt = max 0 (min v.toInt fb.width.toNat) := by
    rw [toInt_clampTo (by omega), hw]
  have hy (v : Int32) :
      (clampTo fb.height.toInt32 v).toInt = max 0 (min v.toInt fb.height.toNat) := by
    rw [toInt_clampTo (by omega), hh]
  simp only [clamped, hx, hy] at hxy
  rw [Framebuffer.contains, inExtent_eq_true]
  omega

/-! ## Draws -/

variable {s : Nat → Prop} {fb : Framebuffer} {st : RenderState}

theorem Fragment.frame_putPixel (hpixel : ∀ i, fb.Owns i → s i) (m : Rdram) (f : Fragment) :
    Frame s m (f.putPixel fb st m).2 := by
  rw [putPixel]
  split
  · exact Frame.refl s m
  · next color hc =>
    have hin : fb.contains f.x f.y = true := by
      rw [blended] at hc
      split at hc
      · exact absurd hc (by simp)
      · next h =>
        simp only [Bool.not_eq_true', Bool.not_eq_false, Bool.and_eq_true] at h
        exact h.1
    have hw := Frame.write16 m color fun i hi ↦ hpixel i ⟨f.x, f.y, hin, hi⟩
    split
    · next heq => rw [heq] at hw; exact hw
    · next heq => rw [heq] at hw; exact hw

theorem DepthBuffer.frame_store {z : DepthBuffer} (hsample : ∀ i, z.Owns i → s i) (m : Rdram)
    (x y : Int) (depth : UInt16) : Frame s m (z.store m x y depth) := by
  rw [store]
  split
  · next h => exact Frame.write16 m depth fun i hi ↦ hsample i (owns_of_contains h hi)
  · exact Frame.refl s m

theorem Fragment.frame_write (hpixel : ∀ i, fb.Owns i → s i) (hsample : ∀ i, st.depth.Owns i → s i)
    (m : Rdram) (f : Fragment) : Frame s m (f.write fb st m) := by
  have hput : Frame s m (f.putPixel fb st m).2 := frame_putPixel hpixel m f
  rw [write]
  split
  · exact hput
  · next depth _ =>
    split
    · split
      · next h => rw [h] at hput; exact hput.trans (st.depth.frame_store hsample _ _ _ depth)
      · next h => rw [h] at hput; exact hput
    · exact Frame.refl s m

theorem Region.frame_foldRows {r : Region} {f : Rdram → Int → Int → Rdram}
    (h : ∀ m x y, r.Contains x y → Frame s m (f m x y)) (m : Rdram) :
    Frame s m (r.foldRows f m) := by
  rw [foldRows_eq_foldl]
  exact Frame.foldl (fun m p hp ↦ h m p.1 p.2 (mem_rowMajor.1 hp)) m

theorem Region.frame_foldColumns {r : Region} {f : Rdram → Int → Int → Rdram}
    (h : ∀ m x y, r.Contains x y → Frame s m (f m x y)) (m : Rdram) :
    Frame s m (r.foldColumns f m) := by
  rw [foldColumns_eq_foldl]
  exact Frame.foldl (fun m p hp ↦ h m p.1 p.2 (mem_columnMajor.1 hp)) m

theorem frame_foldRange {f : Rdram → Int → Rdram} (h : ∀ m i, Frame s m (f m i)) (count : Nat)
    (start : Int) (m : Rdram) : Frame s m (foldRange f count start m) := by
  rw [foldRange_eq_foldl]
  exact Frame.foldl (fun m i _ ↦ h m i) m

/-- A gradient writes every pixel of the scissor, and is the one draw that does not look whether
they are pixels of the framebuffer. -/
theorem frame_drawGradient
    (hscissor : ∀ x y i, st.scissor.contains x y = true → InHalf (fb.addressOf x y) i → s i)
    (m : Rdram) (left right : UInt16) : Frame s m (drawGradient fb st m left right) := by
  refine Region.frame_foldColumns (fun m x y hxy ↦ Frame.write16 m _ fun i hi ↦ ?_) m
  refine hscissor x y i ?_ hi
  rw [Scissor.contains_eq_true]
  exact hxy

theorem frame_drawRect (hpixel : ∀ i, fb.Owns i → s i) (hsample : ∀ i, st.depth.Owns i → s i)
    (m : Rdram) (source : TexelSource) (x y : Int) : Frame s m (drawRect fb st m source x y) := by
  rw [drawRect]
  split
  · exact Region.frame_foldRows (fun m _ _ _ ↦ Fragment.frame_write hpixel hsample m _) m
  · exact Frame.refl s m

theorem frame_drawTiles (hpixel : ∀ i, fb.Owns i → s i) (hsample : ∀ i, st.depth.Owns i → s i)
    (m : Rdram) (addr : UInt32) (size spacing : UInt8) (offset : UInt16) :
    Frame s m (drawTiles fb st m addr size spacing offset) := by
  rw [drawTiles]
  split
  · exact Frame.refl s m
  · exact frame_foldRange (fun m _ ↦ frame_foldRange (fun m _ ↦
      frame_drawRect hpixel hsample m _ _ _) _ _ m) _ _ m

theorem frame_drawTriangle (hpixel : ∀ i, fb.Owns i → s i) (hsample : ∀ i, st.depth.Owns i → s i)
    (m : Rdram) (v : Corners Vertex) (source? : Option TexelSource) (projection : Projection)
    (carriesDepth : Bool) : Frame s m (drawTriangle fb st m v source? projection carriesDepth) := by
  rw [drawTriangle]
  split
  · refine Region.frame_foldRows (fun m x y _ ↦ ?_) m
    split
    · exact Fragment.frame_write hpixel hsample m _
    · exact Frame.refl s m
  · exact Frame.refl s m

theorem DepthBuffer.frame_fillSamples (value : UInt16) {count : Nat} {addr : UInt32}
    (h : ∀ k < count, ∀ i, InHalf (addr + UInt32.ofNat (2 * k)) i → s i) (m : Rdram) :
    Frame s m (fillSamples value count addr m) := by
  induction count generalizing addr m with
  | zero => exact Frame.refl s m
  | succ count ih =>
    have hw : Frame s m (Memory.write16 m addr value).memory :=
      Frame.write16 m value fun i hi ↦ h 0 (by omega) i (by simpa using hi)
    have htail : ∀ k < count, ∀ i, InHalf (addr + 2 + UInt32.ofNat (2 * k)) i → s i := by
      intro k hk i hi
      refine h (k + 1) (by omega) i ?_
      rwa [Nat.mul_succ, Nat.add_comm, UInt32.ofNat_add, ← UInt32.add_assoc]
    rw [fillSamples]
    split
    · next heq => rw [heq] at hw; exact hw.trans (ih htail _)
    · next heq => rw [heq] at hw; exact hw

/-! ## Commands -/

/-- Everything that a draw in state `st` can write lies in `s`.  The scissor counts apart from the
framebuffer, for the sake of gradients. -/
structure RenderState.Confined (s : Nat → Prop) (fb : Framebuffer) (st : RenderState) : Prop where
  pixel : ∀ i, fb.Owns i → s i
  scissor : ∀ x y i, st.scissor.contains x y = true → InHalf (fb.addressOf x y) i → s i
  sample : ∀ i, st.depth.Owns i → s i

/-- At the start of a stream there is nothing to write but the framebuffer. -/
theorem RenderState.confined_initial (h : fb.Signed) (hpixel : ∀ i, fb.Owns i → s i) :
    (initial fb.width fb.height).Confined s fb where
  pixel := hpixel
  scissor x y i hxy hi := hpixel i ⟨x, y, inside_initial h x y hxy, hi⟩
  sample i hi := absurd hi (not_owns_initial fb.width fb.height i)

/-- **A command writes only pixels of the framebuffer and samples of the depth buffer in force.** -/
theorem Command.frame_draw (h : st.Confined s fb) (c : Command) (m : Rdram) :
    Frame s m (c.draw fb st m) := by
  obtain ⟨hpixel, hscissor, hsample⟩ := h
  cases c with
  | gradient left right => exact frame_drawGradient hscissor m left right
  | tiles addr size spacing offset =>
    exact frame_drawTiles hpixel hsample m addr size spacing offset
  | clearDepth value =>
    exact DepthBuffer.frame_fillSamples value (fun k hk i hi ↦ hsample i ⟨k, hk, hi⟩) m
  | solidTriangle v => exact frame_drawTriangle hpixel hsample m v _ _ _
  | solidTriangleDepth v => exact frame_drawTriangle hpixel hsample m v _ _ _
  | rect r => exact frame_drawRect hpixel hsample m _ _ _
  | texTriangle _ _ _ v => exact frame_drawTriangle hpixel hsample m v _ _ _
  | texTriangleDepth _ _ v => exact frame_drawTriangle hpixel hsample m v _ _ _
  | _ => exact Frame.refl s m

/-- No command changes the size of memory. -/
theorem Command.size_draw (fb : Framebuffer) (c : Command) (st : RenderState) (m : Rdram) :
    (c.draw fb st m).size = m.size := by
  have h : st.Confined (fun _ ↦ True) fb :=
    ⟨fun _ _ ↦ trivial, fun _ _ _ _ _ ↦ trivial, fun _ _ ↦ trivial⟩
  exact (frame_draw h c m).size_eq

/-- Only declaring a depth buffer gives the commands that follow something new to write. -/
theorem Command.confined_select (hfb : fb.Signed) (h : st.Confined s fb) {c : Command}
    (hset : ∀ z, c = .setDepthBuffer z → ∀ i, z.Owns i → s i) (m : Rdram) :
    (c.select fb st m).Confined s fb := by
  obtain ⟨hpixel, hscissor, hsample⟩ := h
  cases c with
  | setScissor r =>
    refine ⟨hpixel, fun x y i hxy hi ↦ ?_, hsample⟩
    exact hpixel i ⟨x, y, Scissor.inside_clamped hfb r x y hxy, hi⟩
  | setDepthBuffer z => exact ⟨hpixel, hscissor, hset z rfl⟩
  | _ => exact ⟨hpixel, hscissor, hsample⟩

end DisplayRaster
