import DisplayRaster.DisplayList.Instruction

/-!
# Display lists in memory

`Bytecode.translate` walks the instructions of a display list in memory and turns them into drawing
commands.

A list may call and branch to others.  Addresses are segmented: bits 24 to 27 select one of sixteen
segments, and the low 24 bits are an offset from its base; an address in a segment without a base
stands for itself.  Vertices are loaded into sixteen slots that fill up in order.

Nothing fails: an instruction that lacks its image, tile or vertices is dropped.  The walk stops at
an end instruction without a caller, at an instruction that cannot be read and when the instruction
budget is used up, and the commands always end with the end command.
-/

set_option autoImplicit false

namespace DisplayRaster

namespace DisplayList

namespace Bytecode

/-- The number of vertex slots. -/
def slotCount : Nat := 16

/-- The greatest number of return addresses.  A call in deeper nesting becomes a branch. -/
def callLimit : Nat := 4096

/-- What instructions have set up so far. -/
structure State where
  /-- The base of each segment, once set. -/
  segments : Vector (Option UInt32) 16
  /-- The vertices loaded, in slot order. -/
  vertices : Array Vertex
  image : Option Image
  tile : Option TileExtent
  /-- The bank of the lookup table for four-bit images. -/
  bank : UInt8

/-- The state at the start of a walk. -/
def State.initial : State := ⟨Vector.replicate 16 none, #[], none, none, 0⟩

/-- The address behind a segmented address. -/
def State.locate (st : State) (addr : UInt32) : UInt32 :=
  match st.segments.get ⟨(addr >>> 24).toNat % 16, Nat.mod_lt _ (by decide)⟩ with
  | some base => base + (addr &&& 0x00FFFFFF)
  | none => addr

variable {μ : Type} [Memory μ]

/-! ## Vertices -/

/-- The slots after loading `count` records, up to a full set of slots or a record that cannot be
read. -/
def fillSlots (m : μ) (layout : VertexLayout) :
    (count : Nat) → (addr : UInt32) → Array Vertex → Array Vertex
  | 0, _, slots => slots
  | count + 1, addr, slots =>
    if slotCount ≤ slots.size then slots
    else
      match layout.read m addr with
      | .ok v => fillSlots m layout count (addr + layout.stride) (slots.push v)
      | .error _ => slots

/-- The vertices in three slots; none if one of them is not filled. -/
def corners? (slots : Array Vertex) (indices : Corners Nat) : Option (Corners Vertex) := do
  return ⟨← slots[indices.a]?, ← slots[indices.b]?, ← slots[indices.c]?⟩

/-! ## Commands -/

/-- Select the bank, for an image that needs it. -/
def bankCommands (st : State) (format : TexelFormat) : List Command :=
  if format = .ci4 then [.setBank st.bank] else []

/-- The untextured triangle of a layout. -/
def solidCommand (layout : VertexLayout) (v : Corners Vertex) : Command :=
  match layout with
  | .plain | .tex => .solidTriangle v
  | .texDepth | .texWeightDepth => .solidTriangleDepth v

/-- The textured triangle of a layout.  Only direct colors have a command that carries depth. -/
def texturedCommand (layout : VertexLayout) (format : TriangleFormat) (texture : Texture)
    (v : Corners Vertex) : Command :=
  match layout, format with
  | .texDepth, .rgba16 => .texTriangleDepth .affine texture v
  | .texWeightDepth, .rgba16 => .texTriangleDepth .perspective texture v
  | .texWeightDepth, format => .texTriangle format .perspective texture v
  | _, format => .texTriangle format .affine texture v

/-- The commands of a triangle of three vertices. -/
def triangleCommands (st : State) (layout : VertexLayout) (v : Corners Vertex) : List Command :=
  match layout, st.image with
  | .plain, _ | _, none => [solidCommand layout v]
  | _, some image =>
    match st.tile, image.format.triangle? with
    | some tile, some format =>
      bankCommands st image.format ++ [texturedCommand layout format (image.texture tile) v]
    | _, _ => []

/-- The scissor of a box in quarter pixels. -/
def scissorOf (c : Box) : Scissor :=
  ⟨quarterPixel c.ulx, quarterPixel c.uly, quarterPixel c.lrx, quarterPixel c.lry⟩

/-- The commands of an operation. -/
def commands (st : State) : Operation → List Command
  | .loadTable count addr => [.setTable (st.locate addr) count]
  | .setScissor corners => [.setScissor (scissorOf corners)]
  | .textureRectangle corners =>
    match st.image with
    | some image => bankCommands st image.format ++ [.rect (image.rect st.tile corners)]
    | none => []
  | .setTile _ s t => [.setAddressMode s t]
  | .setPrimColor color => [.setPrimColor color]
  | .setEnvColor color => [.setEnvColor color]
  | .setCombine mode => [.setCombine mode]
  | .triangle layout indices =>
    match corners? st.vertices indices with
    | some v => triangleCommands st layout v
    | none => []
  | .setDepthEnabled enabled => [.setDepthEnabled enabled]
  | .setDepthImage width height addr => [.setDepthBuffer ⟨st.locate addr, width, height⟩]
  | .clearDepth value => [.clearDepth value]
  | .setFilter filter => [.setFilter filter]
  | .setBlend mode => [.setBlend mode]
  | .endList | .jump .. | .segment .. | .setTextureImage .. | .setTileSize _ | .vertices ..
  | .ignored => []

/-- The state after an operation. -/
def State.next (st : State) (m : μ) : Operation → State
  | .segment id base => { st with segments := st.segments.set id (some base) }
  | .setTextureImage format width addr =>
    { st with image := some ⟨format, st.locate addr, width, 0⟩ }
  | .setTileSize corners => { st with tile := some (.ofBox corners) }
  | .setTile bank _ _ => { st with bank := bank }
  | .vertices layout count addr =>
    { st with vertices := fillSlots m layout count (st.locate addr) st.vertices }
  | _ => st

/-! ## The walk -/

/-- Why a walk stopped. -/
inductive Halt where
  /-- An end instruction without a caller. -/
  | finished
  /-- An instruction that cannot be read. -/
  | fault (addr : UInt32)
  /-- The instruction budget. -/
  | budget
  deriving DecidableEq

/-- What a walk leaves behind. -/
structure Outcome where
  halt : Halt
  commands : Array Command

/-- A place in a walk: the address of the next instruction and the addresses to return to, the most
recent one last. -/
structure Place where
  addr : UInt32
  returns : Array UInt32

/-- The instruction at an address; none if one of its words cannot be read. -/
def fetch (m : μ) (addr : UInt32) : Option Instruction :=
  match Memory.read32 m addr, Memory.read32 m (addr + 4) with
  | .ok w0, .ok w1 => some ⟨w0, w1⟩
  | _, _ => none

/-- The place after an operation, for a stack of at most `limit` return addresses; none at the end
of the outermost list. -/
def Place.next (limit : Nat) (st : State) (place : Place) : Operation → Option Place
  | .endList => place.returns.back?.map fun addr ↦ ⟨addr, place.returns.pop⟩
  | .jump returns addr =>
    some ⟨st.locate addr,
      if returns && place.returns.size < limit then
        place.returns.push (place.addr + Instruction.size)
      else place.returns⟩
  | _ => some { place with addr := place.addr + Instruction.size }

/-- Walk at most `budget` instructions, adding to the commands in `done`. -/
def walk (m : μ) (limit : Nat) : (budget : Nat) → Place → State → Array Command → Outcome
  | 0, _, _, done => ⟨.budget, done⟩
  | budget + 1, place, st, done =>
    match fetch m place.addr with
    | none => ⟨.fault place.addr, done⟩
    | some instruction =>
      let op := instruction.operation
      let done := done ++ commands st op
      match place.next limit st op with
      | none => ⟨.finished, done⟩
      | some place => walk m limit budget place (st.next m op) done

/-- The walk from a segmented address. -/
def run (m : μ) (start : UInt32) (budget : Nat) : Outcome :=
  walk m (min budget callLimit) budget ⟨State.initial.locate start, #[]⟩ .initial #[]

/-- The commands of the display list at an address. -/
def translate (m : μ) (start : UInt32) (budget : Nat) : List Command :=
  (run m start budget).commands.toList ++ [.finish]

end Bytecode

end DisplayList

end DisplayRaster
