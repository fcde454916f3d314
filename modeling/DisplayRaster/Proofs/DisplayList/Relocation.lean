import DisplayRaster.Proofs.DisplayList.Block
import DisplayRaster.Proofs.DisplayList.Instruction

/-!
# Segmented display lists can be relocated

A display list that has all its addresses in one segment may lie anywhere: with the base of the
segment moved, a walk does the same at moved places.  It finds the same instructions, loads the same
vertices, returns to moved addresses, and its commands differ in their addresses alone
(`walk_relocates`, by induction on the budget).

`visits` are the places where a walk looks for an instruction, with the state it is in there.  What
a walk reads and which operands it uses are said of its visits.
-/

set_option autoImplicit false

namespace DisplayRaster

/-- The command with its addresses moved. -/
def Command.relocate (shift : UInt32) : Command → Command
  | .tiles addr size spacing offset => .tiles (addr + shift) size spacing offset
  | .setTable addr count => .setTable (addr + shift) count
  | .setDepthBuffer buffer => .setDepthBuffer { buffer with addr := buffer.addr + shift }
  | .rect r => .rect { r with addr := r.addr + shift }
  | .texTriangle format projection texture v =>
    .texTriangle format projection { texture with addr := texture.addr + shift } v
  | .texTriangleDepth projection texture v =>
    .texTriangleDepth projection { texture with addr := texture.addr + shift } v
  | c => c

namespace DisplayList

/-- The segmented address of an operation. -/
def Operation.address? : Operation → Option UInt32
  | .jump _ addr | .setTextureImage _ _ addr | .loadTable _ addr | .vertices _ _ addr
  | .setDepthImage _ _ addr => some addr
  | _ => none

/-- Whether an operation sets the base of a segment. -/
def Operation.setsSegment : Operation → Bool
  | .segment .. => true
  | _ => false

namespace Bytecode

variable {μ ν : Type} [Memory μ] [Memory ν]

/-- The segment of an address. -/
def segmentOf (addr : UInt32) : Nat := (addr >>> 24).toNat % 16

/-- The address of an operation, if it has one, is in segment `k`. -/
def AddressedIn (k : Fin 16) (op : Operation) : Prop := ∀ addr ∈ op.address?, segmentOf addr = k

-- Named, since a search may find the instance that tries all words instead.
instance (k : Fin 16) (op : Operation) : Decidable (AddressedIn k op) :=
  Option.decidableForallMem op.address?

/-! ## Visits -/

/-- A place where a walk looks for an instruction, and the state it is in there. -/
structure Visit where
  addr : UInt32
  state : State

/-- The visits of a walk. -/
def visits (m : μ) (limit : Nat) : (budget : Nat) → Place → State → List Visit
  | 0, _, _ => []
  | budget + 1, place, st =>
    ⟨place.addr, st⟩ ::
      match operationAt m place.addr with
      | none => []
      | some op =>
        match place.next limit st op with
        | none => []
        | some next => visits m limit budget next (st.next m op)

/-- The visits of the walk from a segmented address. -/
def runVisits (m : μ) (start : UInt32) (budget : Nat) : List Visit :=
  visits m (min budget callLimit) budget ⟨State.initial.locate start, #[]⟩ .initial

/-- A visit to an instruction that sets no segment and has all its addresses in segment `k`. -/
structure Visit.InSegment (m : μ) (k : Fin 16) (v : Visit) : Prop where
  setsSegment_eq : ∀ op ∈ operationAt m v.addr, op.setsSegment = false
  addressedIn : ∀ op ∈ operationAt m v.addr, AddressedIn k op

/-- A visit in a segment that finds the same at moved places in another memory. -/
structure Visit.Relocates (m : μ) (m' : ν) (shift : UInt32) (k : Fin 16) (v : Visit) : Prop
    extends v.InSegment m k where
  operationAt_eq : operationAt m' (v.addr + shift) = operationAt m v.addr
  read?_eq : ∀ op ∈ operationAt m v.addr, ∀ r ∈ v.state.records m op,
    r.layout.read? m' (r.addr + shift) = r.layout.read? m r.addr

/-! ## Moved states and places -/

/-- `st'` is `st` with segment `k`, which has the base `base`, and the image moved. -/
structure State.Relocated (k : Fin 16) (base shift : UInt32) (st st' : State) : Prop where
  get_eq : st.segments.get k = some base
  get_eq' : st'.segments.get k = some (base + shift)
  vertices_eq : st'.vertices = st.vertices
  image_eq : st'.image = st.image.map fun image ↦ { image with addr := image.addr + shift }
  tile_eq : st'.tile = st.tile
  bank_eq : st'.bank = st.bank

/-- The place with its addresses moved. -/
def Place.relocate (shift : UInt32) (place : Place) : Place :=
  ⟨place.addr + shift, place.returns.map (· + shift)⟩

variable {st st' : State} {k : Fin 16} {base shift : UInt32}

theorem State.locate_eq (hk : st.segments.get k = some base) {addr : UInt32}
    (haddr : segmentOf addr = k) : st.locate addr = base + (addr &&& 0x00FFFFFF) := by
  obtain rfl : k = ⟨(addr >>> 24).toNat % 16, Nat.mod_lt _ (by decide)⟩ := Fin.ext haddr.symm
  rw [locate, hk]

theorem texturedCommand_relocate (layout : VertexLayout) (format : TriangleFormat)
    (texture : Texture) (v : Corners Vertex) :
    (texturedCommand layout format texture v).relocate shift =
      texturedCommand layout format { texture with addr := texture.addr + shift } v := by
  cases layout <;> cases format <;> rfl

namespace State.Relocated

variable (h : st.Relocated k base shift st')

include h

theorem locate_eq {addr : UInt32} (haddr : segmentOf addr = k) :
    st'.locate addr = st.locate addr + shift := by
  rw [State.locate_eq h.get_eq haddr, State.locate_eq h.get_eq' haddr]
  grind

theorem bankCommands_eq (format : TexelFormat) :
    bankCommands st' format = (bankCommands st format).map (Command.relocate shift) := by
  rw [bankCommands, bankCommands, h.bank_eq]
  split <;> rfl

theorem triangleCommands_eq (layout : VertexLayout) (v : Corners Vertex) :
    triangleCommands st' layout v =
      (triangleCommands st layout v).map (Command.relocate shift) := by
  have himage' := h.image_eq
  cases himage : st.image with
  | none =>
    rw [himage] at himage'
    cases layout <;> simp only [triangleCommands, himage, himage', Option.map_none] <;> rfl
  | some image =>
    rw [himage] at himage'
    cases layout with
    | plain => rfl
    | _ =>
      simp only [triangleCommands, himage, himage', h.tile_eq, Option.map_some]
      cases st.tile with
      | none => rfl
      | some tile =>
        cases image.format.triangle? with
        | none => rfl
        | some format =>
          simp only [h.bankCommands_eq, List.map_append, List.map_cons, List.map_nil,
            texturedCommand_relocate]
          rfl

/-- The commands of an operation are moved. -/
theorem commands_eq {op : Operation} (haddr : AddressedIn k op) :
    commands st' op = (commands st op).map (Command.relocate shift) := by
  cases op with
  | loadTable count addr =>
    rw [commands, h.locate_eq (haddr addr rfl)]
    rfl
  | setDepthImage width height addr =>
    rw [commands, h.locate_eq (haddr addr rfl)]
    rfl
  | textureRectangle corners =>
    have himage' := h.image_eq
    cases himage : st.image with
    | none =>
      rw [himage] at himage'
      simp only [commands, himage, himage', Option.map_none, List.map_nil]
    | some image =>
      rw [himage] at himage'
      simp only [commands, himage, himage', Option.map_some, List.map_append, h.bankCommands_eq,
        h.tile_eq]
      rfl
  | triangle layout indices =>
    simp only [commands, h.vertices_eq]
    cases corners? st.vertices indices with
    | none => rfl
    | some v => exact h.triangleCommands_eq layout v
  | _ => rfl

/-- States that are moved against each other stay so. -/
theorem next {m : μ} {m' : ν} {op : Operation} (hsets : op.setsSegment = false)
    (haddr : AddressedIn k op)
    (hread : ∀ r ∈ st.records m op,
      r.layout.read? m' (r.addr + shift) = r.layout.read? m r.addr) :
    (st.next m op).Relocated k base shift (st'.next m' op) := by
  cases op with
  | segment => cases hsets
  | setTextureImage format width addr =>
    refine { h with image_eq := ?_ }
    show some (Image.mk format (st'.locate addr) width 0) = _
    rw [h.locate_eq (haddr addr rfl)]
    rfl
  | setTileSize corners => exact { h with tile_eq := rfl }
  | setTile bank s t => exact { h with bank_eq := rfl }
  | vertices layout count addr =>
    refine { h with vertices_eq := ?_ }
    show fillSlots m' layout count (st'.locate addr) st'.vertices = _
    rw [h.locate_eq (haddr addr rfl), h.vertices_eq]
    exact fillSlots_shift shift fun a ha ↦ hread ⟨layout, a⟩ (List.mem_map_of_mem ha)
  | _ => exact h

/-- A walk goes on at a moved place. -/
theorem place_next {op : Operation} (haddr : AddressedIn k op) (limit : Nat) (place : Place) :
    (place.relocate shift).next limit st' op =
      (place.next limit st op).map (Place.relocate shift) := by
  have hsize : place.addr + shift + Instruction.size = place.addr + Instruction.size + shift := by
    grind
  cases op with
  | endList =>
    simp only [Place.next, Place.relocate, Array.back?_map, ← Array.map_pop, Option.map_map]
    rfl
  | jump returns addr =>
    simp only [Place.next, h.locate_eq (haddr addr rfl), Place.relocate, Array.size_map, hsize,
      Option.map_some]
    split
    · rw [Array.map_push]
    · rfl
  | _ => exact congrArg (fun addr ↦ some (Place.mk addr _)) hsize

end State.Relocated

/-- **A walk at moved places gives moved commands.** -/
theorem walk_relocates {m : μ} {m' : ν} {limit budget : Nat} {place : Place}
    (hst : st.Relocated k base shift st')
    (h : ∀ v ∈ visits m limit budget place st, v.Relocates m m' shift k) (done : Array Command) :
    (walk m' limit budget (place.relocate shift) st'
        (done.map (Command.relocate shift))).commands =
      (walk m limit budget place st done).commands.map (Command.relocate shift) := by
  induction budget generalizing place st st' done with
  | zero => rfl
  | succ budget ih =>
    rw [visits] at h
    have hvisit := h _ (List.mem_cons_self ..)
    have hmoved : operationAt m' (place.relocate shift).addr = operationAt m place.addr :=
      hvisit.operationAt_eq
    cases hop : operationAt m place.addr with
    | none => rw [walk_of_unreadable hop, walk_of_unreadable (hmoved.trans hop)]
    | some op =>
      have haddr := hvisit.addressedIn op hop
      have hdone : done.map (Command.relocate shift) ++
          (commands st op).map (Command.relocate shift) =
            (done ++ commands st op).map (Command.relocate shift) := by
        apply Array.toList_inj.1
        simp
      simp only [hop] at h
      rw [walk_succ hop, walk_succ (hmoved.trans hop), hst.place_next haddr,
        hst.commands_eq haddr, hdone]
      cases hnext : place.next limit st op with
      | none => rfl
      | some next =>
        rw [hnext] at h
        have hst := hst.next (hvisit.setsSegment_eq op hop) haddr (hvisit.read?_eq op hop)
        exact ih hst (fun v hv ↦ h v (List.mem_cons_of_mem _ hv)) _

/-! ## Translations -/

/-- Two instructions that set a segment and go on at an offset in it. -/
def entry (k : Fin 16) (base offset : UInt32) : List Instruction :=
  [.segment (UInt8.ofNat k) base, .branch ((UInt32.ofNat k <<< 24) ||| offset)]

/-- A visit in a segment to an instruction in a block; the vertex records that it looks at are in
the block, too. -/
structure Visit.Within (m : Rdram) (base : UInt32) (size : Nat) (k : Fin 16) (v : Visit) : Prop
    extends v.InSegment m k where
  inBlock : Rdram.InBlock base size v.addr Instruction.size.toNat
  records_inBlock : ∀ op ∈ operationAt m v.addr, ∀ r ∈ v.state.records m op,
    Rdram.InBlock base size r.addr r.layout.stride.toNat

instance (m : Rdram) (base : UInt32) (size : Nat) (k : Fin 16) (v : Visit) :
    Decidable (v.Within m base size k) :=
  decidable_of_iff
    (((∀ op ∈ operationAt m v.addr, op.setsSegment = false) ∧
        ∀ op ∈ operationAt m v.addr, AddressedIn k op) ∧
      Rdram.InBlock base size v.addr Instruction.size.toNat ∧
      ∀ op ∈ operationAt m v.addr, ∀ r ∈ v.state.records m op,
        Rdram.InBlock base size r.addr r.layout.stride.toNat)
    ⟨fun h ↦ ⟨⟨h.1.1, h.1.2⟩, h.2.1, h.2.2⟩,
      fun h ↦ ⟨⟨h.setsSegment_eq, h.addressedIn⟩, h.inBlock, h.records_inBlock⟩⟩

/-- A visit in a block finds the same in another placement of the block. -/
theorem Visit.Within.relocates {m m' : Rdram} {base base' : UInt32} {block : List UInt8}
    (h : m.BlockAt base block) (h' : m'.BlockAt base' block) {v : Visit}
    (hv : v.Within m base block.length k) : v.Relocates m m' (base' - base) k where
  toInSegment := hv.toInSegment
  operationAt_eq := congrArg (Option.map Instruction.operation) (fetch_shift h h' hv.inBlock)
  read?_eq op hop r hr := VertexLayout.read?_shift h h' (hv.records_inBlock op hop r hr)

/-- The base of a segment that was just set. -/
theorem State.get_next_segment (m : μ) :
    (st.next m (.segment k base)).segments.get k = some base :=
  Vector.getElem_set_self _

/-- The states behind two entries are moved against each other. -/
theorem State.relocated_next_segment (m : μ) (m' : ν) {base' : UInt32} :
    (initial.next m (.segment k base)).Relocated k base (base' - base)
      (initial.next m' (.segment k base')) where
  get_eq := get_next_segment m
  get_eq' := by
    rw [get_next_segment, show base + (base' - base) = base' by grind]
  vertices_eq := rfl
  image_eq := rfl
  tile_eq := rfl
  bank_eq := rfl

variable {offset : UInt32}

theorem operationAt_entry {m : μ} {start : UInt32}
    (hm : Memory.Holds m start (Instruction.words (entry k base offset))) :
    operationAt m start = some (.segment k base) ∧
      operationAt m (start + Instruction.size) =
        some (.jump false ((UInt32.ofNat k <<< 24) ||| offset)) := by
  obtain ⟨hfirst, hrest⟩ := fetch_of_holds hm
  obtain ⟨hsecond, -⟩ := fetch_of_holds hrest
  rw [operationAt, operationAt, hfirst, hsecond, Option.map_some, Option.map_some,
    Instruction.operation_segment, Instruction.operation_branch]
  exact ⟨rfl, rfl⟩

/-- An offset in a segment leads behind its base. -/
theorem State.locate_segment (hst : st.segments.get k = some base)
    (hoffset : offset.toNat < 2 ^ 24) :
    st.locate ((UInt32.ofNat k <<< 24) ||| offset) = base + offset := by
  have hk := k.isLt
  have hid : (UInt32.ofNat k).toNat = k := by
    rw [UInt32.toNat_ofNat']
    omega
  have haddr : ((UInt32.ofNat k <<< 24) ||| offset).toNat = k * 2 ^ 24 + offset.toNat := by
    rw [Field.toNat_shiftLeft_or (n := 24) rfl (by omega) (by omega) hoffset, hid]
  have hsegment : segmentOf ((UInt32.ofNat k <<< 24) ||| offset) = k := by
    show (((UInt32.ofNat k <<< 24) ||| offset) >>> 24).toNat % 16 = k
    rw [Field.toNat_shiftRight (n := 24) rfl (by omega), haddr]
    omega
  have hmask : ((UInt32.ofNat k <<< 24) ||| offset) &&& 0x00FFFFFF = offset := by
    apply UInt32.toNat_inj.1
    rw [Field.toNat_mask (n := 24) rfl, haddr]
    omega
  rw [State.locate_eq hst hsegment, hmask]

/-- A walk from an entry is a walk in the segment. -/
theorem walk_entry {m : μ} {start : UInt32}
    (hm : Memory.Holds m start (Instruction.words (entry k base offset)))
    (hoffset : offset.toNat < 2 ^ 24) (limit budget : Nat) :
    walk m limit (budget + 2) ⟨start, #[]⟩ .initial #[] =
      walk m limit budget ⟨base + offset, #[]⟩ (State.initial.next m (.segment k base)) #[] := by
  obtain ⟨hfirst, hsecond⟩ := operationAt_entry hm
  rw [walk_succ hfirst]
  refine (walk_succ hsecond _ _ _ _).trans ?_
  rw [← State.locate_segment (State.get_next_segment m) hoffset]
  rfl

theorem visits_entry {m : μ} {start : UInt32}
    (hm : Memory.Holds m start (Instruction.words (entry k base offset)))
    (hoffset : offset.toNat < 2 ^ 24) (limit budget : Nat) :
    (visits m limit (budget + 2) ⟨start, #[]⟩ .initial).drop 2 =
      visits m limit budget ⟨base + offset, #[]⟩ (State.initial.next m (.segment k base)) := by
  obtain ⟨hfirst, hsecond⟩ := operationAt_entry hm
  rw [visits, hfirst, ← State.locate_segment (State.get_next_segment m) hoffset]
  simp only [Place.next, visits, hsecond]
  rfl

/-- **Segmented display lists can be relocated.**  A block lies at one base in one memory and at
another base in another memory, and an entry at the same address of both leads into it.  If the walk
in the first memory stays in the block and in the segment of the entry from there on, then the
commands from the second memory are those from the first with their addresses moved by the distance
of the bases. -/
theorem translate_relocates {m m' : Rdram} {base' : UInt32} {block : List UInt8}
    (h : m.BlockAt base block) (h' : m'.BlockAt base' block) (hoffset : offset.toNat < 2 ^ 24)
    {start : UInt32} (hm : Memory.Holds m start (Instruction.words (entry k base offset)))
    (hm' : Memory.Holds m' start (Instruction.words (entry k base' offset))) {budget : Nat}
    (hvisits : ∀ v ∈ (runVisits m start budget).drop 2, v.Within m base block.length k) :
    translate m' start budget =
      (translate m start budget).map (Command.relocate (base' - base)) := by
  rw [runVisits, State.unsegmented_initial.locate] at hvisits
  rw [translate, translate, run, run, State.unsegmented_initial.locate, List.map_append]
  refine congrArg (· ++ [Command.finish]) ?_
  rw [← Array.toList_map]
  refine congrArg Array.toList ?_
  rcases budget with _ | _ | budget
  · rw [walk, walk, Array.map_empty]
  · have hfirst : operationAt m (Place.mk start #[]).addr = _ := (operationAt_entry hm).1
    have hfirst' : operationAt m' (Place.mk start #[]).addr = _ := (operationAt_entry hm').1
    rw [walk_succ hfirst, walk_succ hfirst']
    exact Array.map_empty.symm
  · have hplace : Place.relocate (base' - base) ⟨base + offset, #[]⟩ = ⟨base' + offset, #[]⟩ := by
      rw [Place.relocate, Array.map_empty, show base + offset + (base' - base) = base' + offset by
        grind]
    rw [visits_entry hm hoffset] at hvisits
    have hwalk := walk_relocates (State.relocated_next_segment m m')
      (fun v hv ↦ (hvisits v hv).relocates h h') #[]
    rw [hplace, Array.map_empty] at hwalk
    rw [walk_entry hm hoffset, walk_entry hm' hoffset]
    exact hwalk

/-- A list with a called list, at two places. -/
theorem translate_relocates_nested :
    let caller : List Instruction :=
      [.call 0x06000020, .setTextureImage .rgba16 4 0x06000050, .textureRectangle ⟨4, 8, 20, 24⟩,
        .endList]
    let callee : List Instruction :=
      [.vertices .plain 1 0x06000048, .triangle .plain 0 0 0, .loadTable 1 0x0600004C,
        .setDepthImage 2 2 0x06000040, .endList]
    let block : List UInt8 :=
      (Instruction.words (caller ++ callee)).flatMap VertexLayout.wordBytes ++
        [0, 1, 0, 2, 0xAB, 0xCD, 0, 0]
    let placed (base : UInt32) : Rdram :=
      ((Instruction.write (Rdram.zeroed 104) 0 (entry 6 base 0)).memory.load base
        ⟨block.toArray⟩).memory
    let v : Vertex := .position 1 2
    translate (placed 16) 0 11 =
        [.solidTriangle ⟨v, v, v⟩, .setTable 92 1, .setDepthBuffer ⟨80, 2, 2⟩,
          .rect ⟨.rgba16, 96, 4, 4, 1, 2⟩, .finish] ∧
      translate (placed 24) 0 11 =
        [.solidTriangle ⟨v, v, v⟩, .setTable 100 1, .setDepthBuffer ⟨88, 2, 2⟩,
          .rect ⟨.rgba16, 104, 4, 4, 1, 2⟩, .finish] := by
  intro caller callee block placed v
  have htranslate : translate (placed 16) 0 11 =
      [.solidTriangle ⟨v, v, v⟩, .setTable 92 1, .setDepthBuffer ⟨80, 2, 2⟩,
        .rect ⟨.rgba16, 96, 4, 4, 1, 2⟩, .finish] := by decide +kernel
  have hblock : Memory.HoldsBytes (placed 16) 16 block := by decide +kernel
  have hblock' : Memory.HoldsBytes (placed 24) 24 block := by decide +kernel
  have hentry : Memory.Holds (placed 16) 0 (Instruction.words (entry 6 16 0)) := by decide +kernel
  have hentry' : Memory.Holds (placed 24) 0 (Instruction.words (entry 6 24 0)) := by decide +kernel
  have hrelocates : translate (placed 24) 0 11 =
      (translate (placed 16) 0 11).map (Command.relocate (24 - 16)) :=
    translate_relocates ⟨by decide, hblock⟩ ⟨by decide, hblock'⟩ (by decide) hentry hentry'
      (by decide +kernel)
  refine ⟨htranslate, hrelocates.trans ?_⟩
  rw [htranslate]
  rfl

end Bytecode

end DisplayList

end DisplayRaster
