import DisplayRaster.Error
import DisplayRaster.Toml.Document

/-!
# Frame configuration

Where the framebuffer is and how a frame is made.  A configuration is a TOML document with the
tables `framebuffer` and `pipeline`; whatever it leaves out has a default, and keys it does not know
are ignored.  Instead of a table, an array may give the members in their order.

A number without a value is an error under any key, also under one that is ignored.  The items of an
array after the last member are not looked at.
-/

set_option autoImplicit false

namespace DisplayRaster

/-- What lies at the start address of a frame. -/
inductive FrameSource where
  /-- A display list. -/
  | displayList
  /-- A stream. -/
  | stream
  deriving DecidableEq

namespace FrameSource

/-- The name of a source. -/
def name : FrameSource → String
  | .displayList => "bytecode"
  | .stream => "rspdl"

/-- The source of a name. -/
def ofName? (name : String) : Option FrameSource :=
  if name = "bytecode" then some .displayList
  else if name = "rspdl" then some .stream
  else none

@[simp]
theorem ofName?_name (f : FrameSource) : ofName? f.name = some f := by cases f <;> decide

end FrameSource

/-- Where the framebuffer is. -/
structure Config.Placement where
  origin : UInt32
  width : UInt32
  height : UInt32
  /-- The pixels from one row to the next. -/
  stride : UInt32
  deriving DecidableEq

/-- How a frame is made. -/
structure Config.Pipeline where
  source : FrameSource
  /-- The address of the display list or the stream. -/
  start : UInt32
  /-- The greatest number of instructions of a display list, or of words of a stream. -/
  budget : Nat
  /-- The address that a display list's stream is written to. -/
  slotAddr : UInt32
  /-- The number of words that it may have. -/
  slotWords : Nat
  deriving DecidableEq

/-- The configuration of a frame. -/
structure Config where
  framebuffer : Config.Placement
  pipeline : Config.Pipeline
  deriving DecidableEq

/-- The default framebuffer. -/
def Config.Placement.default : Config.Placement where
  origin := 0x100000
  width := 320
  height := 240
  stride := 320

/-- The default pipeline. -/
def Config.Pipeline.default : Config.Pipeline where
  source := .displayList
  start := 0x200000
  budget := 4096
  slotAddr := 0x300000
  slotWords := 0x4000

namespace Config

/-- The default configuration. -/
def default : Config := ⟨.default, .default⟩

/-! ## Reading values -/

/-- A natural number below `bound`. -/
def natural (bound : Nat) : Toml.Value → Option Nat
  | .integer n => if 0 ≤ n && n < bound then some n.toNat else none
  | _ => none

/-- A word. -/
def word (v : Toml.Value) : Option UInt32 := (natural UInt32.size v).map UInt32.ofNat

/-- A count; counts are 64 bits wide. -/
def count (v : Toml.Value) : Option Nat := natural UInt64.size v

/-- A source: its name, or a table with its name as the only key and nothing under it. -/
def source : Toml.Value → Option FrameSource
  | .text name => FrameSource.ofName? name
  | .table _ [(name, .table _ [])] => FrameSource.ofName? name
  | .table _ [(name, .array [])] => FrameSource.ofName? name
  | _ => none

/-- The member of a value with a name and a position: by name in a table, by position in an array.
A date has no members; other values are no records. -/
def member? (v : Toml.Value) (name : String) (position : Nat) : Option (Option Toml.Value) :=
  match v with
  | .table _ entries => some (Toml.Table.find? entries name)
  | .array items => some items[position]?
  | .tables items => some (items.reverse[position]?.map (.table .header))
  | .date => some none
  | _ => none

/-- The member of a value, or a default if it is left out. -/
def member {α : Type} (v : Toml.Value) (name : String) (position : Nat) (default : α)
    (read : Toml.Value → Option α) : Option α := do
  match ← member? v name position with
  | none => return default
  | some content => read content

/-- Whether all numbers under keys other than the given names have values. -/
def othersReadable (names : List String) : Toml.Value → Bool
  | .table _ entries => Toml.Value.entriesReadable (entries.filter fun entry ↦ entry.1 ∉ names)
  | _ => true

/-- The placement of the framebuffer. -/
def framebufferOf (v : Toml.Value) : Option Placement := do
  guard (othersReadable ["origin", "width", "height", "stride"] v)
  let d := Placement.default
  return {
    origin := ← member v "origin" 0 d.origin word
    width := ← member v "width" 1 d.width word
    height := ← member v "height" 2 d.height word
    stride := ← member v "stride" 3 d.stride word }

/-- The making of a frame. -/
def pipelineOf (v : Toml.Value) : Option Pipeline := do
  guard (othersReadable ["frontend", "start", "budget", "slot_addr", "slot_words"] v)
  let d := Pipeline.default
  return {
    source := ← member v "frontend" 0 d.source source
    start := ← member v "start" 1 d.start word
    budget := ← member v "budget" 2 d.budget count
    slotAddr := ← member v "slot_addr" 3 d.slotAddr word
    slotWords := ← member v "slot_words" 4 d.slotWords count }

/-- The configuration in a document. -/
def ofTable (t : Toml.Table) : Option Config := do
  let v := Toml.Value.table .header t
  guard (othersReadable ["framebuffer", "pipeline"] v)
  return {
    framebuffer := ← member v "framebuffer" 0 .default framebufferOf
    pipeline := ← member v "pipeline" 1 .default pipelineOf }

/-- The configuration of a text. -/
def ofToml (text : String) : Except Error Config :=
  match (Toml.parse text).bind ofTable with
  | some config => .ok config
  | none => .error .configuration

/-- The configuration of a file, given its bytes if it exists.  The bytes have to be valid UTF-8. -/
def ofFile (file? : Option ByteArray) : Except Error Config :=
  match file?.bind String.fromUTF8? with
  | some text => ofToml text
  | none => .error .file

end Config

end DisplayRaster
