import DisplayRaster.Proofs.Memory.Halfwords

/-!
# Flat memory is a map of bytes

A flat memory is asked to read or write a byte, a halfword or a word, or to load a run of bytes
(`Rdram.Access`).  What this should mean is said on a `ByteMap`, which has a size and a byte for
each physical address: an access that is aligned and lies in memory reads its bytes as one
big-endian number, or replaces exactly these bytes, and any other access does nothing.

* `Rdram.access_byteMap`, `Rdram.accessAll_byteMap`: memory and its map give the same answers and
  stay the same through every sequence of accesses.
* `Rdram.toOption_read16_eq`, `Rdram.toOption_write16_eq` and their like for words: wide accesses
  succeed together with the compositions of byte accesses.  The compositions may stop halfway, so
  they leave the same memory only if they succeed.
-/

set_option autoImplicit false

namespace DisplayRaster

/-! ## Numbers as bytes -/

namespace BigEndian

/-- The lowest `width` bytes of a number, the most significant one first. -/
def digits (width value : Nat) : List UInt8 :=
  (List.range width).map fun k ↦ UInt8.ofNat (value / 256 ^ (width - 1 - k))

/-- The number that bytes stand for, the most significant one first. -/
def number (bytes : List UInt8) : Nat := bytes.foldl (fun n byte ↦ 256 * n + byte.toNat) 0

theorem digits_byte (v : UInt8) : digits 1 v.toNat = [v] := by
  simp [digits]

theorem digits_halfword (v : UInt16) : digits 2 v.toNat = [highByte v, v.toUInt8] := by
  show [UInt8.ofNat (v.toNat / 256 ^ 1), UInt8.ofNat (v.toNat / 256 ^ 0)] = _
  simp only [List.cons.injEq, and_true, ← UInt8.toNat_inj, UInt8.toNat_ofNat', toNat_highByte,
    UInt16.toNat_toUInt8]
  have := v.toNat_lt
  omega

theorem digits_word (v : UInt32) : digits 4 v.toNat =
    [highByte (highHalf v), (highHalf v).toUInt8, highByte v.toUInt16, v.toUInt16.toUInt8] := by
  show [UInt8.ofNat (v.toNat / 256 ^ 3), UInt8.ofNat (v.toNat / 256 ^ 2),
    UInt8.ofNat (v.toNat / 256 ^ 1), UInt8.ofNat (v.toNat / 256 ^ 0)] = _
  simp only [List.cons.injEq, and_true, ← UInt8.toNat_inj, UInt8.toNat_ofNat', toNat_highByte,
    UInt16.toNat_toUInt8, toNat_highHalf, UInt32.toNat_toUInt16]
  have := v.toNat_lt
  omega

theorem number_byte (b : UInt8) : number [b] = b.toNat := by
  simp [number]

theorem number_halfword (high low : UInt8) : number [high, low] = (halfword high low).toNat := by
  rw [toNat_halfword]
  simp only [number, List.foldl_cons, List.foldl_nil]
  omega

theorem number_word (b₀ b₁ b₂ b₃ : UInt8) :
    number [b₀, b₁, b₂, b₃] = (word (halfword b₀ b₁) (halfword b₂ b₃)).toNat := by
  rw [toNat_word, toNat_halfword, toNat_halfword]
  simp only [number, List.foldl_cons, List.foldl_nil]
  omega

end BigEndian

namespace Rdram

/-! ## Accesses -/

/-- What flat memory can be asked to do. -/
inductive Access
  | read8 (addr : UInt32)
  | read16 (addr : UInt32)
  | read32 (addr : UInt32)
  | write8 (addr : UInt32) (value : UInt8)
  | write16 (addr : UInt32) (value : UInt16)
  | write32 (addr : UInt32) (value : UInt32)
  | load (addr : UInt32) (data : ByteArray)

/-- The answer to a write has no value. -/
def answerOf (w : Written Rdram) : Except MemoryFault (Option Nat) × Rdram :=
  match w with
  | ⟨m, none⟩ => (.ok none, m)
  | ⟨m, some fault⟩ => (.error fault, m)

/-- The answer to an access, with the value if it is a read, and the memory afterwards. -/
def perform (m : Rdram) : Access → Except MemoryFault (Option Nat) × Rdram
  | .read8 addr => ((m.read8 addr).map fun value ↦ some value.toNat, m)
  | .read16 addr => ((m.read16 addr).map fun value ↦ some value.toNat, m)
  | .read32 addr => ((m.read32 addr).map fun value ↦ some value.toNat, m)
  | .write8 addr value => answerOf (m.write8 addr value)
  | .write16 addr value => answerOf (m.write16 addr value)
  | .write32 addr value => answerOf (m.write32 addr value)
  | .load addr data => answerOf (m.load addr data)

/-- Accesses one after another, whether they fail or not. -/
def performAll (m : Rdram) : List Access → List (Except MemoryFault (Option Nat)) × Rdram
  | [] => ([], m)
  | a :: rest =>
    let (answer, m) := m.perform a
    let (answers, m) := m.performAll rest
    (answer :: answers, m)

namespace Access

/-- The address of an access. -/
def addr : Access → UInt32
  | read8 addr | read16 addr | read32 addr => addr
  | write8 addr _ | write16 addr _ | write32 addr _ | load addr _ => addr

/-- The alignment of an access. -/
def unit : Access → Nat
  | read8 _ | write8 _ _ | load _ _ => 1
  | read16 _ | write16 _ _ => 2
  | read32 _ | write32 _ _ => 4

/-- The bytes that an access writes; a read has none. -/
def data? : Access → Option (List UInt8)
  | read8 _ | read16 _ | read32 _ => none
  | write8 _ value => some (BigEndian.digits 1 value.toNat)
  | write16 _ value => some (BigEndian.digits 2 value.toNat)
  | write32 _ value => some (BigEndian.digits 4 value.toNat)
  | load _ data => some data.data.toList

/-- The number of bytes of an access. -/
def length : Access → Nat
  | load _ data => data.size
  | a => a.unit

/-- The physical address of the first byte: the mirrors of memory repeat every 512 megabytes. -/
def place (a : Access) : Nat := a.addr.toNat % 2 ^ 29

/-- An access that is aligned and lies in a memory of `size` bytes.  Loading nothing has to start in
memory all the same. -/
def InRange (a : Access) (size : Nat) : Prop :=
  a.addr.toNat % a.unit = 0 ∧ a.place + max 1 a.length ≤ size

instance (a : Access) (size : Nat) : Decidable (a.InRange size) :=
  inferInstanceAs (Decidable (_ ∧ _))

end Access

end Rdram

/-! ## Byte maps -/

/-- A number of bytes, and the byte at each address. -/
@[ext]
structure ByteMap where
  size : Nat
  byte : Nat → UInt8

namespace ByteMap

/-- The bytes from a place on. -/
def bytes (b : ByteMap) (place length : Nat) : List UInt8 :=
  (List.range length).map fun k ↦ b.byte (place + k)

/-- The map with bytes replaced from a place on. -/
def lay (b : ByteMap) (place : Nat) (bytes : List UInt8) : ByteMap :=
  { b with byte := fun i ↦ if place ≤ i then bytes[i - place]?.getD (b.byte i) else b.byte i }

/-- What an access does: it reads or replaces its bytes, if it is aligned and lies in memory, and
nothing otherwise. -/
def access (b : ByteMap) (a : Rdram.Access) : Option (Option Nat) × ByteMap :=
  if a.InRange b.size then
    match a.data? with
    | none => (some (some (BigEndian.number (b.bytes a.place a.length))), b)
    | some bytes => (some none, b.lay a.place bytes)
  else (none, b)

/-- Accesses one after another. -/
def accessAll (b : ByteMap) : List Rdram.Access → List (Option (Option Nat)) × ByteMap
  | [] => ([], b)
  | a :: rest =>
    let (answer, b) := b.access a
    let (answers, b) := b.accessAll rest
    (answer :: answers, b)

theorem isSome_access {b : ByteMap} {a : Rdram.Access} :
    (b.access a).1.isSome = true ↔ a.InRange b.size := by
  rw [access]
  split
  · next h => cases a.data? <;> exact iff_of_true rfl h
  · next h => exact iff_of_false Bool.false_ne_true h

/-- Bytes replaced one after another. -/
theorem lay_cons (b : ByteMap) (place : Nat) (v : UInt8) (bytes : List UInt8) :
    b.lay place (v :: bytes) = (b.lay place [v]).lay (place + 1) bytes := by
  ext i
  · rfl
  · simp only [lay]
    by_cases hnext : place + 1 ≤ i
    · have hsucc : i - place = i - (place + 1) + 1 := by omega
      rw [if_pos (by omega), if_pos hnext, if_pos (by omega), hsucc, List.getElem?_cons_succ,
        List.getElem?_cons_succ, List.getElem?_nil, Option.getD_none]
    · by_cases hi : i = place
      · subst hi
        rw [if_pos (Nat.le_refl i), if_neg hnext, if_pos (Nat.le_refl i), Nat.sub_self]
        rfl
      · rw [if_neg (by omega), if_neg hnext, if_neg (by omega)]

end ByteMap

namespace Rdram

variable {m : Rdram} {a : Access} {addr : UInt32}

/-- Memory as a map of bytes. -/
def byteMap (m : Rdram) : ByteMap := ⟨m.size, m.byte⟩

/-! ## One access -/

theorem inRange_iff (a : Access) :
    a.InRange m.size ↔ m.Fits a.addr a.unit ∧ physical a.addr + a.length ≤ m.size := by
  have hunit (hf : m.Fits a.addr a.unit) : physical a.addr + a.unit ≤ m.size := hf.inside
  rw [physical_eq_mod] at hunit
  rw [Access.InRange, Access.place, physical_eq_mod]
  constructor
  · rintro ⟨haligned, hin⟩
    refine ⟨⟨haligned, ?_⟩, by omega⟩
    rw [physical_eq_mod]
    show _ ≤ m.size
    cases a <;> simp only [Access.unit, Access.length] at hin ⊢ <;> omega
  · rintro ⟨hf, hin⟩
    have hunit := hunit hf
    refine ⟨hf.aligned, ?_⟩
    cases a <;> simp only [Access.unit, Access.length] at hunit hin ⊢ <;> omega

theorem inRange_iff_fits (hlength : a.length = a.unit) :
    a.InRange m.size ↔ m.Fits a.addr a.unit := by
  rw [inRange_iff, hlength]
  exact and_iff_left_of_imp fun hf ↦ hf.inside

theorem place_eq_physical (a : Access) : a.place = physical a.addr :=
  (physical_eq_mod a.addr).symm

/-- **A failing access changes nothing.** -/
theorem perform_of_not_inRange (h : ¬ a.InRange m.size) :
    ∃ fault, m.perform a = (.error fault, m) := by
  cases a with
  | read8 addr =>
    have hf : ¬ m.Fits addr 1 := fun hf ↦ h ((inRange_iff_fits rfl).2 hf)
    exact ⟨_, by rw [perform, read8_of_not_fits hf]; rfl⟩
  | read16 addr =>
    have hf : ¬ m.Fits addr 2 := fun hf ↦ h ((inRange_iff_fits rfl).2 hf)
    exact ⟨_, by rw [perform, read16_of_not_fits hf]; rfl⟩
  | read32 addr =>
    have hf : ¬ m.Fits addr 4 := fun hf ↦ h ((inRange_iff_fits rfl).2 hf)
    exact ⟨_, by rw [perform, read32_of_not_fits hf]; rfl⟩
  | write8 addr value =>
    have hf : ¬ m.Fits addr 1 := fun hf ↦ h ((inRange_iff_fits rfl).2 hf)
    exact ⟨_, by rw [perform, write8_of_not_fits value hf]; rfl⟩
  | write16 addr value =>
    have hf : ¬ m.Fits addr 2 := fun hf ↦ h ((inRange_iff_fits rfl).2 hf)
    exact ⟨_, by rw [perform, write16_of_not_fits value hf]; rfl⟩
  | write32 addr value =>
    have hf : ¬ m.Fits addr 4 := fun hf ↦ h ((inRange_iff_fits rfl).2 hf)
    exact ⟨_, by rw [perform, write32_of_not_fits value hf]; rfl⟩
  | load addr data =>
    have hout : ¬ (m.Fits addr 1 ∧ physical addr + data.size ≤ m.size) :=
      fun hin ↦ h ((inRange_iff _).2 hin)
    obtain ⟨fault, hfault⟩ := load_of_not_inside hout
    exact ⟨fault, by rw [perform, hfault]; rfl⟩

theorem byteMap_put {i : Nat} (hi : i < m.size) (value : UInt8) :
    (m.put i value).byteMap = m.byteMap.lay i [value] := by
  ext j
  · exact size_put m i value
  · simp only [byteMap, ByteMap.lay, byte_put]
    by_cases hij : i = j
    · subst hij
      simp [hi]
    · by_cases hle : i ≤ j
      · rw [if_neg fun h ↦ hij h.1, if_pos hle, List.getElem?_eq_none (by simp; omega),
          Option.getD_none]
      · rw [if_neg fun h ↦ hij h.1, if_neg hle]

theorem byteMap_overlay {start : Nat} {data : ByteArray} (h : start + data.size ≤ m.size) :
    (m.overlay start data).byteMap = m.byteMap.lay start data.data.toList := by
  ext j
  · exact size_overlay h
  · have hlength : data.data.toList.length = data.size := Array.length_toList
    simp only [byteMap, ByteMap.lay, byte_overlay h]
    by_cases hle : start ≤ j
    · by_cases hj : j < start + data.size
      · have hget : data.get! (j - start) = data.data.toList[j - start] :=
          getElem!_pos data.data (j - start) (show j - start < data.size by omega)
        rw [if_pos ⟨hle, hj⟩, if_pos hle, List.getElem?_eq_getElem (by omega), hget,
          Option.getD_some]
      · rw [if_neg fun h ↦ hj h.2, if_pos hle, List.getElem?_eq_none (by omega), Option.getD_none]
    · rw [if_neg fun h ↦ hle h.1, if_neg hle]

/-- What a successful access answers and leaves behind. -/
theorem perform_of_inRange (h : a.InRange m.size) :
    ((m.perform a).1.toOption, (m.perform a).2.byteMap) = m.byteMap.access a := by
  rw [ByteMap.access, if_pos (show a.InRange m.byteMap.size from h), place_eq_physical]
  cases a with
  | read8 addr =>
    have hf : m.Fits addr 1 := (inRange_iff_fits rfl).1 h
    rw [perform, read8_of_fits hf]
    show _ = (some (some (BigEndian.number [m.byte (physical addr)])), m.byteMap)
    rw [BigEndian.number_byte]
    rfl
  | read16 addr =>
    have hf : m.Fits addr 2 := (inRange_iff_fits rfl).1 h
    rw [perform, read16_of_fits hf]
    show _ = (some (some (BigEndian.number [m.byte (physical addr), m.byte (physical addr + 1)])),
      m.byteMap)
    rw [BigEndian.number_halfword]
    rfl
  | read32 addr =>
    have hf : m.Fits addr 4 := (inRange_iff_fits rfl).1 h
    rw [perform, read32_of_fits hf]
    show _ = (some (some (BigEndian.number [m.byte (physical addr), m.byte (physical addr + 1),
      m.byte (physical addr + 2), m.byte (physical addr + 3)])), m.byteMap)
    rw [BigEndian.number_word]
    rfl
  | write8 addr value =>
    have hf : m.Fits addr 1 := (inRange_iff_fits rfl).1 h
    have hin : physical addr + 1 ≤ m.size := hf.inside
    rw [perform, write8_of_fits value hf]
    show (some none, (m.put _ _).byteMap) = (some none, m.byteMap.lay (physical addr) _)
    rw [byteMap_put hin, BigEndian.digits_byte]
  | write16 addr value =>
    have hf : m.Fits addr 2 := (inRange_iff_fits rfl).1 h
    have hin : physical addr + 2 ≤ m.size := hf.inside
    rw [perform, write16_of_fits value hf]
    show (some none, ((m.put _ _).put _ _).byteMap) = (some none, m.byteMap.lay (physical addr) _)
    rw [byteMap_put (by rw [size_put]; omega), byteMap_put (by omega), BigEndian.digits_halfword,
      ByteMap.lay_cons _ _ _ [_]]
  | write32 addr value =>
    have hf : m.Fits addr 4 := (inRange_iff_fits rfl).1 h
    have hin : physical addr + 4 ≤ m.size := hf.inside
    rw [perform, write32_of_fits value hf]
    show (some none, ((((m.put _ _).put _ _).put _ _).put _ _).byteMap) =
      (some none, m.byteMap.lay (physical addr) _)
    rw [byteMap_put (by simp only [size_put]; omega), byteMap_put (by simp only [size_put]; omega),
      byteMap_put (by simp only [size_put]; omega), byteMap_put (by omega), BigEndian.digits_word,
      ByteMap.lay_cons _ _ _ [_, _, _], ByteMap.lay_cons _ _ _ [_, _], ByteMap.lay_cons _ _ _ [_]]
  | load addr data =>
    obtain ⟨hf, hin⟩ : m.Fits addr 1 ∧ physical addr + data.size ≤ m.size := (inRange_iff _).1 h
    rw [perform, load_of_inside hf hin]
    show (some none, (m.overlay _ _).byteMap) = (some none, m.byteMap.lay (physical addr) _)
    rw [byteMap_overlay hin]

/-- An access does to a memory what it does to its map. -/
theorem access_byteMap (m : Rdram) (a : Access) :
    m.byteMap.access a = ((m.perform a).1.toOption, (m.perform a).2.byteMap) := by
  by_cases h : a.InRange m.size
  · exact (perform_of_inRange h).symm
  · obtain ⟨fault, hfault⟩ := perform_of_not_inRange h
    rw [ByteMap.access, if_neg (show ¬ a.InRange m.byteMap.size from h), hfault]
    rfl

/-- **An access succeeds iff it is aligned and lies in memory.** -/
theorem isOk_perform (m : Rdram) (a : Access) :
    (m.perform a).1.isOk = true ↔ a.InRange m.size := by
  have hstep : (m.byteMap.access a).1.isSome = true ↔ a.InRange m.size := ByteMap.isSome_access
  rw [access_byteMap] at hstep
  rw [← hstep]
  cases (m.perform a).1 <;> rfl

theorem size_perform (m : Rdram) (a : Access) : (m.perform a).2.size = m.size := by
  have hstep := congrArg (fun step ↦ step.2.size) (access_byteMap m a)
  refine hstep.symm.trans ?_
  rw [ByteMap.access]
  split
  · split <;> rfl
  · rfl

/-! ## Sequences of accesses -/

/-- Accesses one after another do to a memory what they do to its map. -/
theorem accessAll_byteMap (m : Rdram) (accesses : List Access) :
    m.byteMap.accessAll accesses =
      ((m.performAll accesses).1.map Except.toOption, (m.performAll accesses).2.byteMap) := by
  induction accesses generalizing m with
  | nil => rfl
  | cons a rest ih =>
    rw [ByteMap.accessAll, access_byteMap]
    show ((m.perform a).1.toOption :: ((m.perform a).2.byteMap.accessAll rest).1,
      ((m.perform a).2.byteMap.accessAll rest).2) = _
    rw [ih]
    rfl

theorem size_performAll (m : Rdram) (accesses : List Access) :
    (m.performAll accesses).2.size = m.size := by
  induction accesses generalizing m with
  | nil => rfl
  | cons a rest ih => exact (ih (m.perform a).2).trans (size_perform m a)

end Rdram

/-! ## Wide accesses and their compositions -/

namespace Written

variable {μ : Type}

/-- The memory after a write, if the write succeeded. -/
def toOption (w : Written μ) : Option μ :=
  match w with
  | ⟨m, none⟩ => some m
  | ⟨_, some _⟩ => none

theorem toOption_andThen (w : Written μ) (next : μ → Written μ) :
    (w.andThen next).toOption = w.toOption.bind fun m ↦ (next m).toOption := by
  obtain ⟨m, _ | fault⟩ := w
  · rfl
  · rfl

end Written

namespace BigEndian

theorem toOption_read16 (read8 : UInt32 → Except MemoryFault UInt8) (addr : UInt32) :
    (read16 read8 addr).toOption = (read8 addr).toOption.bind fun high ↦
      (read8 (addr + 1)).toOption.map (halfword high) := by
  rw [read16]
  cases read8 addr <;> cases read8 (addr + 1) <;> rfl

theorem toOption_read32 (read16 : UInt32 → Except MemoryFault UInt16) (addr : UInt32) :
    (read32 read16 addr).toOption = (read16 addr).toOption.bind fun high ↦
      (read16 (addr + 2)).toOption.map (word high) := by
  rw [read32]
  cases read16 addr <;> cases read16 (addr + 2) <;> rfl

end BigEndian

namespace Rdram

variable {m : Rdram} {addr : UInt32} {n : Nat}

/-- The place of the second half of an aligned access. -/
theorem physical_add_half (hn : 2 * n ∣ 2 ^ 29) (haligned : addr.toNat % (2 * n) = 0) :
    physical (addr + UInt32.ofNat n) = physical addr + n := by
  have hpos : 0 < 2 * n := Nat.pos_of_dvd_of_pos hn (by decide)
  have hlt : physical addr < 2 ^ 29 := by
    rw [physical_eq_mod]
    omega
  have hplace : 2 * n ∣ physical addr := by
    rw [physical_eq_mod, Nat.dvd_mod_iff hn]
    exact Nat.dvd_of_mod_eq_zero haligned
  have hroom : 2 * n ≤ 2 ^ 29 - physical addr :=
    Nat.le_of_dvd (by omega) (Nat.dvd_sub hn hplace)
  exact physical_add (by omega)

/-- An aligned access fits iff both halves of it do. -/
theorem fits_halves (hn : 2 * n ∣ 2 ^ 29) (haligned : addr.toNat % (2 * n) = 0) :
    m.Fits addr (2 * n) ↔ m.Fits addr n ∧ m.Fits (addr + UInt32.ofNat n) n := by
  have hplace := physical_add_half hn haligned
  have hhigh : addr.toNat % n = 0 :=
    Nat.mod_eq_zero_of_dvd (Nat.dvd_trans (Nat.dvd_mul_left n 2) (Nat.dvd_of_mod_eq_zero haligned))
  have hlow : (addr + UInt32.ofNat n).toNat % n = 0 := by
    have hwrap : n ∣ 2 ^ 32 :=
      Nat.dvd_trans (Nat.dvd_mul_left n 2) (Nat.dvd_trans hn (by decide))
    rw [UInt32.toNat_add, UInt32.toNat_ofNat', Nat.mod_mod_of_dvd _ hwrap, Nat.add_mod, hhigh,
      Nat.mod_mod_of_dvd _ hwrap, Nat.mod_self, Nat.add_zero, Nat.zero_mod]
  constructor
  · rintro ⟨-, hin⟩
    exact ⟨⟨hhigh, by omega⟩, ⟨hlow, by omega⟩⟩
  · rintro ⟨-, -, hin⟩
    exact ⟨haligned, by omega⟩

/-- The bytes of an aligned halfword. -/
theorem bytes_of_aligned (m : Rdram) (haligned : addr.toNat % 2 = 0) :
    physical (addr + 1) = physical addr + 1 ∧
      (m.Fits addr 2 ↔ m.Fits addr 1 ∧ m.Fits (addr + 1) 1) :=
  ⟨physical_add_half (n := 1) (by decide) haligned, fits_halves (n := 1) (by decide) haligned⟩

/-- The halfwords of an aligned word, which are aligned themselves. -/
theorem halfwords_of_aligned (m : Rdram) (haligned : addr.toNat % 4 = 0) :
    physical (addr + 2) = physical addr + 2 ∧
      (m.Fits addr 4 ↔ m.Fits addr 2 ∧ m.Fits (addr + 2) 2) ∧
      addr.toNat % 2 = 0 ∧ (addr + 2).toNat % 2 = 0 := by
  refine ⟨physical_add_half (n := 2) (by decide) haligned,
    fits_halves (n := 2) (by decide) haligned, ?_⟩
  rw [UInt32.toNat_add, show (2 : UInt32).toNat = 2 from rfl]
  omega

/-- An aligned halfword reads as its two bytes do. -/
theorem toOption_read16_eq (haligned : addr.toNat % 2 = 0) :
    (m.read16 addr).toOption = (BigEndian.read16 m.read8 addr).toOption := by
  obtain ⟨hplace, hfits⟩ := bytes_of_aligned m haligned
  rw [BigEndian.toOption_read16]
  by_cases hf : m.Fits addr 2
  · obtain ⟨hhigh, hlow⟩ := hfits.1 hf
    rw [read16_of_fits hf, read8_of_fits hhigh, read8_of_fits hlow, hplace]
    rfl
  · rw [read16_of_not_fits hf]
    by_cases hhigh : m.Fits addr 1
    · rw [read8_of_fits hhigh, read8_of_not_fits fun hlow ↦ hf (hfits.2 ⟨hhigh, hlow⟩)]
      rfl
    · rw [read8_of_not_fits hhigh]
      rfl

/-- An aligned word reads as its four bytes do. -/
theorem toOption_read32_eq (haligned : addr.toNat % 4 = 0) :
    (m.read32 addr).toOption = (BigEndian.read32 (BigEndian.read16 m.read8) addr).toOption := by
  obtain ⟨hplace, hfits, haddr, hnext⟩ := halfwords_of_aligned m haligned
  rw [BigEndian.toOption_read32, ← toOption_read16_eq haddr, ← toOption_read16_eq hnext]
  by_cases hf : m.Fits addr 4
  · obtain ⟨hhigh, hlow⟩ := hfits.1 hf
    rw [read32_of_fits hf, read16_of_fits hhigh, read16_of_fits hlow, hplace]
    rfl
  · rw [read32_of_not_fits hf]
    by_cases hhigh : m.Fits addr 2
    · rw [read16_of_fits hhigh, read16_of_not_fits fun hlow ↦ hf (hfits.2 ⟨hhigh, hlow⟩)]
      rfl
    · rw [read16_of_not_fits hhigh]
      rfl

/-- An aligned halfword is written as its two bytes are. -/
theorem toOption_write16_eq (m : Rdram) (haligned : addr.toNat % 2 = 0) (value : UInt16) :
    (m.write16 addr value).toOption = (BigEndian.write16 write8 m addr value).toOption := by
  obtain ⟨hplace, hfits⟩ := bytes_of_aligned m haligned
  rw [BigEndian.write16, Written.toOption_andThen]
  by_cases hhigh : m.Fits addr 1
  · have hlow : (m.put (physical addr) (BigEndian.highByte value)).Fits (addr + 1) 1 ↔
        m.Fits addr 2 := by
      rw [fits_congr (size_put ..), hfits, and_iff_right hhigh]
    rw [write8_of_fits _ hhigh]
    show _ = (write8 _ _ _).toOption
    by_cases hf : m.Fits addr 2
    · rw [write16_of_fits value hf, write8_of_fits _ (hlow.2 hf), hplace]
    · rw [write16_of_not_fits value hf, write8_of_not_fits _ fun h ↦ hf (hlow.1 h)]
      rfl
  · rw [write16_of_not_fits value fun hf ↦ hhigh (hfits.1 hf).1, write8_of_not_fits _ hhigh]
    rfl

/-- An aligned word is written as its four bytes are. -/
theorem toOption_write32_eq (m : Rdram) (haligned : addr.toNat % 4 = 0) (value : UInt32) :
    (m.write32 addr value).toOption =
      (BigEndian.write32 (BigEndian.write16 write8) m addr value).toOption := by
  obtain ⟨hplace, hfits, haddr, hnext⟩ := halfwords_of_aligned m haligned
  rw [BigEndian.write32, Written.toOption_andThen, ← toOption_write16_eq m haddr]
  simp only [← toOption_write16_eq _ hnext]
  by_cases hhigh : m.Fits addr 2
  · have hlow : ((m.put (physical addr) (BigEndian.highByte (BigEndian.highHalf value))).put
        (physical addr + 1) (BigEndian.highHalf value).toUInt8).Fits (addr + 2) 2 ↔
        m.Fits addr 4 := by
      rw [fits_congr ((size_put ..).trans (size_put ..)), hfits, and_iff_right hhigh]
    rw [write16_of_fits _ hhigh]
    show _ = (write16 _ _ _).toOption
    by_cases hf : m.Fits addr 4
    · rw [write32_of_fits value hf, write16_of_fits _ (hlow.2 hf), hplace]
    · rw [write32_of_not_fits value hf, write16_of_not_fits _ fun h ↦ hf (hlow.1 h)]
      rfl
  · rw [write32_of_not_fits value fun hf ↦ hhigh (hfits.1 hf).1, write16_of_not_fits _ hhigh]
    rfl

/-- **Flat memory is an atomic, mirrored map of big-endian bytes.**  Every sequence of accesses is
answered as on the map and leaves the map's bytes.  After it an access succeeds iff it is aligned
and lies in memory, and otherwise changes nothing.  Aligned wide accesses succeed together with the
compositions of byte accesses, read the same value and leave the same memory. -/
theorem performAll_refines (m : Rdram) (accesses : List Access) :
    let m' := (m.performAll accesses).2
    m.byteMap.accessAll accesses =
      ((m.performAll accesses).1.map Except.toOption, m'.byteMap) ∧
    (∀ a : Access, ((m'.perform a).1.isOk = true ↔ a.InRange m.size) ∧
      ((m'.perform a).1.isOk = false → (m'.perform a).2 = m')) ∧
    (∀ addr : UInt32, addr.toNat % 2 = 0 →
      (m'.read16 addr).toOption = (BigEndian.read16 m'.read8 addr).toOption ∧
      ∀ value, (m'.write16 addr value).toOption =
        (BigEndian.write16 write8 m' addr value).toOption) ∧
    ∀ addr : UInt32, addr.toNat % 4 = 0 →
      (m'.read32 addr).toOption =
        (BigEndian.read32 (BigEndian.read16 m'.read8) addr).toOption ∧
      ∀ value, (m'.write32 addr value).toOption =
        (BigEndian.write32 (BigEndian.write16 write8) m' addr value).toOption := by
  intro m'
  have hok (a : Access) : (m'.perform a).1.isOk = true ↔ a.InRange m.size := by
    rw [isOk_perform, size_performAll]
  refine ⟨accessAll_byteMap m accesses, fun a ↦ ⟨hok a, fun hfail ↦ ?_⟩,
    fun addr haligned ↦ ⟨toOption_read16_eq haligned, toOption_write16_eq m' haligned⟩,
    fun addr haligned ↦ ⟨toOption_read32_eq haligned, toOption_write32_eq m' haligned⟩⟩
  have hout : ¬ a.InRange m'.size := by
    rw [← isOk_perform, hfail]
    exact Bool.false_ne_true
  obtain ⟨fault, hfault⟩ := perform_of_not_inRange hout
  rw [hfault]

/-- A memory of seven bytes.  The last byte is out of reach for halfwords and words, also for their
compositions. -/
theorem performAll_refines_seven :
    let m := zeroed 7
    let accesses : List Access := [.write16 0x80000004 0xABCD, .write32 4 1,
      .load 0xA0000001 ⟨#[1, 2, 3]⟩, .read16 0x20000004, .read32 0]
    let m' := (m.performAll accesses).2
    (m.performAll accesses).1.map Except.toOption =
      [some none, none, some none, some (some 0xABCD), some (some 0x10203)] ∧
    (m'.read16 6).toOption = (BigEndian.read16 m'.read8 6).toOption ∧
    (m'.write32 4 1).toOption =
      (BigEndian.write32 (BigEndian.write16 write8) m' 4 1).toOption := by
  intro m accesses m'
  obtain ⟨hrun, -, hhalf, hword⟩ := performAll_refines m accesses
  refine ⟨?_, (hhalf 6 (by decide)).1, (hword 4 (by decide)).2 1⟩
  exact (congrArg Prod.fst hrun).symm.trans (by decide)

end Rdram

end DisplayRaster
