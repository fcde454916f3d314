import DisplayRaster.Proofs.Memory.Accesses
import DisplayRaster.Proofs.Stream.Budget
import DisplayRaster.System

/-!
# Streams and their slots

A stream is written into its slot word by word, so what is left behind depends on what goes wrong.
A slot that is too small or not aligned is found out before the first word.  Memory that ends
within the slot is found out at the first word beyond it, when all the words before that have been
written (`Rdram.writeWords_append`, `Stream.slotOutcome_write`).

A system runs a stream only after all of it has been written.  `System.executed` lists the
instructions of a run; a run that fails has none, and leaves the system as the writing left it
(`System.contained_runCommands`), whichever way its commands have come about (`System.run_slot`).
-/

set_option autoImplicit false

namespace DisplayRaster

/-! ## Words as runs of bytes -/

/-- The bytes of words one after another. -/
def BigEndian.wordBytes (ws : List UInt32) : List UInt8 := ws.flatMap fun w ↦ digits 4 w.toNat

theorem BigEndian.length_digits (width value : Nat) : (digits width value).length = width := by
  rw [digits, List.length_map, List.length_range]

/-- A longer run of bytes is laid in two parts. -/
theorem ByteMap.lay_append (b : ByteMap) (place : Nat) (bytes rest : List UInt8) :
    b.lay place (bytes ++ rest) = (b.lay place bytes).lay (place + bytes.length) rest := by
  induction bytes generalizing b place with
  | nil =>
    have hnil : b.lay place [] = b := by
      ext i
      · rfl
      · simp [lay]
    rw [hnil]
    rfl
  | cons v bytes ih =>
    rw [List.cons_append, lay_cons, ih, ← lay_cons, List.length_cons, Nat.add_assoc,
      Nat.add_comm 1]

namespace Rdram

open Memory (four_mul_succ writeWords)

variable {m : Rdram} {addr : UInt32}

/-- A word that fits replaces four bytes. -/
theorem byteMap_write32 (h : m.Fits addr 4) (value : UInt32) :
    (m.write32 addr value).memory.byteMap =
      m.byteMap.lay (physical addr) (BigEndian.digits 4 value.toNat) := by
  have hin : (Access.write32 addr value).InRange m.byteMap.size := (inRange_iff_fits rfl).2 h
  have hstep := congrArg Prod.snd (perform_of_inRange hin)
  rw [ByteMap.access, if_pos hin, place_eq_physical, perform, write32_of_fits value h] at hstep
  rw [write32_of_fits value h]
  exact hstep

/-- **Words that fit are written one after another**, and the words after them come next. -/
theorem writeWords_append (hsize : m.size < 2 ^ 29) {ws : List UInt32}
    (hfits : ∀ k < ws.length, m.Fits (addr + 4 * UInt32.ofNat k) 4) :
    ∃ m' : Rdram, m'.size = m.size ∧
      m'.byteMap = m.byteMap.lay (physical addr) (BigEndian.wordBytes ws) ∧
      ∀ rest, writeWords m addr (ws ++ rest) =
        writeWords m' (addr + 4 * UInt32.ofNat ws.length) rest := by
  induction ws generalizing m addr with
  | nil =>
    refine ⟨m, rfl, ?_, fun rest ↦ by simp⟩
    ext i
    · rfl
    · simp [ByteMap.lay, BigEndian.wordBytes]
  | cons w ws ih =>
    have hfirst : m.Fits addr 4 := by simpa using hfits 0 (by simp)
    have hsize' := size_write32 m addr w
    have hin : physical addr + 4 ≤ m.size := hfirst.inside
    have hnext : physical (addr + 4) = physical addr + 4 := physical_add (n := 4) (by omega)
    have hothers : ∀ k < ws.length,
        (m.write32 addr w).memory.Fits (addr + 4 + 4 * UInt32.ofNat k) 4 := fun k hk ↦ by
      rw [fits_congr hsize', four_mul_succ]
      exact hfits (k + 1) (by simpa using hk)
    obtain ⟨m', hm', hbytes, hrest⟩ := ih (by omega) hothers
    refine ⟨m', hm'.trans hsize', ?_, fun rest ↦ ?_⟩
    · rw [hbytes, hnext, byteMap_write32 hfirst]
      exact ((ByteMap.lay_append _ _ _ _).trans (by rw [BigEndian.length_digits]; rfl)).symm
    · have hstep : writeWords m addr (w :: (ws ++ rest)) =
          writeWords (m.write32 addr w).memory (addr + 4) (ws ++ rest) := by
        show (m.write32 addr w).andThen _ = _
        rw [write32_of_fits w hfirst]
        rfl
      rw [List.cons_append, hstep, hrest, List.length_cons, four_mul_succ]

/-- Words are written up to the first that does not fit. -/
theorem writeWords_of_not_fits {w : UInt32} (h : ¬ m.Fits addr 4) (rest : List UInt32) :
    writeWords m addr (w :: rest) = ⟨m, some (faultOf addr 4)⟩ := by
  show (m.write32 addr w).andThen _ = _
  rw [write32_of_not_fits w h]
  rfl

end Rdram

/-! ## Slots -/

namespace Stream

open Rdram (physical)

/-- The address of a word of a slot. -/
def wordAddr (addr : UInt32) (k : Nat) : UInt32 := addr + 4 * UInt32.ofNat k

/-- A word of a slot lies in memory. -/
def WordInside (m : Rdram) (addr : UInt32) (k : Nat) : Prop :=
  physical (wordAddr addr k) + 4 ≤ m.size

instance (m : Rdram) (addr : UInt32) (k : Nat) : Decidable (WordInside m addr k) :=
  inferInstanceAs (Decidable (_ ≤ _))

/-- Memory with the first `k` words of a stream in its slot. -/
def written (m : Rdram) (addr : UInt32) (cs : List Command) (k : Nat) : ByteMap :=
  m.byteMap.lay (physical addr) (BigEndian.wordBytes ((encode cs).take k))

/-- What writing a stream into a slot comes to. -/
structure SlotOutcome (m : Rdram) (addr : UInt32) (slot : Nat) (cs : List Command)
    (out : Rdram × Except Error Nat) : Prop where
  /-- It succeeds iff the slot is large enough, aligned and in memory. -/
  ok_iff : (∃ n, out.2 = .ok n) ↔ (encode cs).length ≤ slot ∧ addr.toNat % 4 = 0 ∧
    ∀ k < (encode cs).length, WordInside m addr k
  of_ok : ∀ n, out.2 = .ok n →
    n = (encode cs).length ∧ out.1.byteMap = written m addr cs (encode cs).length
  overflow_iff : (∃ needed room, out.2 = .error (.streamOverflow needed room)) ↔
    slot < (encode cs).length
  of_overflow : slot < (encode cs).length →
    out = (m, .error (.streamOverflow (encode cs).length slot))
  unaligned_iff : (∃ a size, out.2 = .error (.memory (.unaligned a size))) ↔
    (encode cs).length ≤ slot ∧ addr.toNat % 4 ≠ 0
  of_unaligned : (encode cs).length ≤ slot → addr.toNat % 4 ≠ 0 →
    out = (m, .error (.memory (.unaligned addr 4)))
  /-- Otherwise it fails at the first word that is not in memory, and has written those before. -/
  of_outside : (encode cs).length ≤ slot → addr.toNat % 4 = 0 →
    (∃ k < (encode cs).length, ¬ WordInside m addr k) →
    ∃ k < (encode cs).length, (∀ j < k, WordInside m addr j) ∧ ¬ WordInside m addr k ∧
      out.2 = .error (.memory (.invalid (wordAddr addr k))) ∧ out.1.byteMap = written m addr cs k

variable {m : Rdram} {addr : UInt32} {slot : Nat} {cs : List Command}

/-- All words of an aligned slot are aligned. -/
theorem aligned_wordAddr (haligned : addr.toNat % 4 = 0) (k : Nat) :
    (wordAddr addr k).toNat % 4 = 0 := by
  rw [wordAddr, UInt32.toNat_add, UInt32.toNat_mul, UInt32.toNat_ofNat',
    show (4 : UInt32).toNat = 4 from rfl]
  omega

theorem fits_wordAddr (haligned : addr.toNat % 4 = 0) (k : Nat) :
    m.Fits (wordAddr addr k) 4 ↔ WordInside m addr k :=
  ⟨fun h ↦ h.inside, fun h ↦ ⟨aligned_wordAddr haligned k, h⟩⟩

theorem write_of_overflow (h : slot < (encode cs).length) :
    write m addr slot cs = (m, .error (.streamOverflow (encode cs).length slot)) :=
  if_pos h

/-- A slot that is large enough takes all words, up to the first that cannot be written. -/
theorem write_of_writeWords {m' : Rdram} (h : (encode cs).length ≤ slot)
    (hwords : Memory.writeWords m addr (encode cs) = ⟨m', none⟩) :
    write m addr slot cs = (m', .ok (encode cs).length) := by
  rw [write, if_neg (Nat.not_lt.2 h), hwords]

theorem write_of_fault {m' : Rdram} {fault : MemoryFault} (h : (encode cs).length ≤ slot)
    (hwords : Memory.writeWords m addr (encode cs) = ⟨m', some fault⟩) :
    write m addr slot cs = (m', .error (.memory fault)) := by
  rw [write, if_neg (Nat.not_lt.2 h), hwords]

theorem write_of_unaligned (h : (encode cs).length ≤ slot) (haligned : addr.toNat % 4 ≠ 0) :
    write m addr slot cs = (m, .error (.memory (.unaligned addr 4))) := by
  obtain ⟨w, ws, hws⟩ := List.exists_cons_of_ne_nil (encode_ne_nil cs)
  have hfits : ¬ m.Fits addr 4 := fun hf ↦ haligned hf.aligned
  have hwords : Memory.writeWords m addr (encode cs) = ⟨m, some (.unaligned addr 4)⟩ := by
    rw [hws, Rdram.writeWords_of_not_fits hfits, Rdram.faultOf, if_pos haligned]
  exact write_of_fault h hwords

/-- A slot in memory takes the whole stream. -/
theorem write_of_inside (hsize : m.size < 2 ^ 29) (h : (encode cs).length ≤ slot)
    (haligned : addr.toNat % 4 = 0) (hin : ∀ k < (encode cs).length, WordInside m addr k) :
    ∃ m', write m addr slot cs = (m', .ok (encode cs).length) ∧
      m'.byteMap = written m addr cs (encode cs).length := by
  obtain ⟨m', -, hbytes, hrest⟩ := Rdram.writeWords_append hsize fun k hk ↦
    (fits_wordAddr haligned k).2 (hin k hk)
  have hall : Memory.writeWords m addr (encode cs) = ⟨m', none⟩ := by
    simpa [Memory.writeWords] using hrest []
  refine ⟨m', write_of_writeWords h hall, ?_⟩
  rw [hbytes, written, List.take_length]

/-- A slot in which memory ends takes the words before the first one beyond memory. -/
theorem write_of_outside (hsize : m.size < 2 ^ 29) (h : (encode cs).length ≤ slot)
    (haligned : addr.toNat % 4 = 0) {k : Nat} (hk : k < (encode cs).length)
    (hbefore : ∀ j < k, WordInside m addr j) (hout : ¬ WordInside m addr k) :
    ∃ m', write m addr slot cs = (m', .error (.memory (.invalid (wordAddr addr k)))) ∧
      m'.byteMap = written m addr cs k := by
  have hlength : ((encode cs).take k).length = k := List.length_take_of_le hk.le
  have hfirst : ∀ j < ((encode cs).take k).length, m.Fits (addr + 4 * UInt32.ofNat j) 4 :=
    fun j hj ↦ (fits_wordAddr haligned j).2 (hbefore j (hlength ▸ hj))
  obtain ⟨m', hm', hbytes, hrest⟩ := Rdram.writeWords_append hsize hfirst
  have hfits : ¬ m'.Fits (wordAddr addr k) 4 := by
    rw [Rdram.fits_congr hm', fits_wordAddr haligned]
    exact hout
  have hfault : Rdram.faultOf (wordAddr addr k) 4 = .invalid (wordAddr addr k) := by
    rw [Rdram.faultOf, if_neg (not_not_intro (aligned_wordAddr haligned k))]
  have hcut := hrest ((encode cs).drop k)
  rw [List.take_append_drop, hlength, List.drop_eq_getElem_cons hk,
    show addr + 4 * UInt32.ofNat k = wordAddr addr k from rfl,
    Rdram.writeWords_of_not_fits hfits, hfault] at hcut
  exact ⟨m', write_of_fault h hcut, hbytes⟩

/-- **The answer says what is wrong with a slot, and how much of it has been written.** -/
theorem slotOutcome_write (hsize : m.size < 2 ^ 29) (addr : UInt32) (slot : Nat)
    (cs : List Command) : SlotOutcome m addr slot cs (write m addr slot cs) := by
  by_cases hroom : slot < (encode cs).length
  · have hout : write m addr slot cs = _ := write_of_overflow hroom
    constructor <;> simp [hout] <;> omega
  have hle : (encode cs).length ≤ slot := by omega
  by_cases haligned : addr.toNat % 4 = 0
  · by_cases hin : ∀ k < (encode cs).length, WordInside m addr k
    · obtain ⟨m', hout, hbytes⟩ := write_of_inside hsize hle haligned hin
      constructor
      · exact iff_of_true ⟨_, congrArg Prod.snd hout⟩ ⟨hle, haligned, hin⟩
      · rintro n hn
        rw [hout] at hn ⊢
        cases hn
        exact ⟨rfl, hbytes⟩
      · simp [hout, hle]
      · simp [hle]
      · simp [hout, haligned]
      · simp [haligned]
      · rintro - - ⟨k, hk, hbeyond⟩
        exact absurd (hin k hk) hbeyond
    · obtain ⟨k, ⟨hk, hbeyond⟩, hfirst⟩ : ∃ k, (k < (encode cs).length ∧ ¬ WordInside m addr k) ∧
          ∀ j < k, ¬ (j < (encode cs).length ∧ ¬ WordInside m addr j) := by
        have hex : ∃ k, k < (encode cs).length ∧ ¬ WordInside m addr k := by simpa using hin
        exact ⟨Nat.find hex, Nat.find_spec hex, fun j ↦ Nat.find_min hex⟩
      have hbefore : ∀ j < k, WordInside m addr j := fun j hj ↦
        Decidable.not_not.1 fun h ↦ hfirst j hj ⟨hj.trans hk, h⟩
      obtain ⟨m', hout, hbytes⟩ := write_of_outside hsize hle haligned hk hbefore hbeyond
      constructor
      · exact iff_of_false (by simp [hout]) fun h ↦ hin h.2.2
      · simp [hout]
      · simp [hout, hle]
      · simp [hle]
      · simp [hout, haligned]
      · simp [haligned]
      · intro _ _ _
        exact ⟨k, hk, hbefore, hbeyond, by rw [hout], by rw [hout, hbytes]⟩
  · have hout := write_of_unaligned (m := m) hle haligned
    constructor <;> simp [hout, haligned, hle]

end Stream

/-! ## Runs of the system -/

namespace System

/-- The instructions that the system executes for a list of commands. -/
def executed (s : System) (commands : List Command) (slotAddr : UInt32) (slotWords : Nat) :
    List Stream.Instruction :=
  match Stream.write s.memory slotAddr slotWords commands with
  | (m, .ok words) => Stream.fetched s.framebuffer m slotAddr words
  | (_, .error _) => []

/-- A run that executes the stream of `commands` once it has been written, and nothing before. -/
structure Contained (s : System) (commands : List Command) (slotAddr : UInt32) (slotWords : Nat)
    (run : System × Except Error FrameCounts) : Prop where
  /-- The answer is that to the writing. -/
  answer_eq : run.2 = (Stream.write s.memory slotAddr slotWords commands).2.map fun words ↦
    ⟨commands.length, words⟩
  /-- Memory is as the writing left it, with the effect of the instructions that were executed. -/
  system_eq : run.1 = s.withMemory (Command.applyAll s.framebuffer
    ((s.executed commands slotAddr slotWords).map Stream.Instruction.command)
    (.initial s.width s.height) (Stream.write s.memory slotAddr slotWords commands).1).2
  executed_of_error : ∀ e, run.2 = .error e → s.executed commands slotAddr slotWords = []
  system_of_error : ∀ e, run.2 = .error e →
    run.1 = s.withMemory (Stream.write s.memory slotAddr slotWords commands).1

section

variable {s : System} {commands : List Command} {slotAddr : UInt32} {slotWords : Nat} {m' : Rdram}

/-- A stream that has been written is run. -/
theorem runCommands_of_ok {words : Nat}
    (h : Stream.write s.memory slotAddr slotWords commands = (m', .ok words)) :
    s.runCommands commands slotAddr slotWords =
      (s.withMemory (Stream.render s.framebuffer m' slotAddr words),
        .ok ⟨commands.length, words⟩) := by
  obtain ⟨m, video, width, height⟩ := s
  simp only [runCommands, h]
  rfl

/-- Without its stream a system does not run. -/
theorem runCommands_of_error {e : Error}
    (h : Stream.write s.memory slotAddr slotWords commands = (m', .error e)) :
    s.runCommands commands slotAddr slotWords = (s.withMemory m', .error e) := by
  obtain ⟨m, video, width, height⟩ := s
  simp only [runCommands, h]
  rfl

end

theorem contained_runCommands (s : System) (commands : List Command) (slotAddr : UInt32)
    (slotWords : Nat) :
    s.Contained commands slotAddr slotWords (s.runCommands commands slotAddr slotWords) := by
  rcases hwrite : Stream.write s.memory slotAddr slotWords commands with ⟨m', e | words⟩
  · have hexecuted : s.executed commands slotAddr slotWords = [] := by rw [executed, hwrite]
    rw [runCommands_of_error hwrite]
    refine ⟨by rw [hwrite]; rfl, ?_, fun _ _ ↦ hexecuted, fun _ _ ↦ by rw [hwrite]⟩
    rw [hexecuted, hwrite]
    rfl
  · have hexecuted : s.executed commands slotAddr slotWords =
        Stream.fetched s.framebuffer m' slotAddr words := by rw [executed, hwrite]
    rw [runCommands_of_ok hwrite]
    refine ⟨by rw [hwrite]; rfl, ?_, nofun, nofun⟩
    rw [hexecuted, hwrite]
    exact congrArg s.withMemory (Stream.memory_runFor _ _ _ _ _)

/-- **A stream runs only if it has been written**, and the answer to a run says what is wrong with
the slot.  This holds for commands as well as for display lists of both kinds, which are translated
first. -/
theorem run_slot {s : System} (hsize : s.memory.size < 2 ^ 29) (slotAddr : UInt32)
    (slotWords : Nat) :
    (∀ commands, Stream.SlotOutcome s.memory slotAddr slotWords commands
      (Stream.write s.memory slotAddr slotWords commands)) ∧
    (∀ commands, s.Contained commands slotAddr slotWords
      (s.runCommands commands slotAddr slotWords)) ∧
    (∀ directives, s.Contained (DisplayList.Directive.translate directives) slotAddr slotWords
      (s.runDirectives directives slotAddr slotWords)) ∧
    ∀ start budget, s.Contained (DisplayList.Bytecode.translate s.memory start budget) slotAddr
      slotWords (s.runDisplayList start budget slotAddr slotWords) :=
  ⟨fun commands ↦ Stream.slotOutcome_write hsize slotAddr slotWords commands,
    fun commands ↦ s.contained_runCommands commands slotAddr slotWords,
    fun _ ↦ s.contained_runCommands _ slotAddr slotWords,
    fun _ _ ↦ s.contained_runCommands _ slotAddr slotWords⟩

/-- Memory ends in the middle of the third word of a stream, whose slot is named by a mirror. -/
theorem run_slot_cut :
    let s : System := ⟨.zeroed 22, ⟨0, 2⟩, 2, 1⟩
    let commands : List Command := [.gradient 7 7]
    let run := s.runCommands commands 0x8000000C 4
    run.2 = .error (.memory (.invalid 0x80000014)) ∧
      s.executed commands 0x8000000C 4 = [] ∧
      run.1 = s.withMemory (Stream.write s.memory 0x8000000C 4 commands).1 ∧
      (List.range 22).map run.1.memory.byte = List.replicate 15 0 ++ [1, 0, 0, 0, 7, 0, 0] ∧
      ¬ ∃ n, (Stream.write s.memory 0x8000000C 4 commands).2 = .ok n := by
  intro s commands run
  obtain ⟨hslot, hrun, -, -⟩ := run_slot (s := s) (by decide) 0x8000000C 4
  have hanswer : run.2 = .error (.memory (.invalid 0x80000014)) := by decide
  refine ⟨hanswer, (hrun commands).executed_of_error _ hanswer,
    (hrun commands).system_of_error _ hanswer, by decide, fun hok ↦ ?_⟩
  obtain ⟨-, -, hin⟩ := (hslot commands).ok_iff.1 hok
  exact absurd (hin 2 (by decide)) (by decide)

end System

end DisplayRaster
