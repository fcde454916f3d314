import DisplayRaster.System

/-!
# Command line

The program renders one frame from a memory image and prints the checksum of what the display shows.
`Options.parse` reads the arguments: one memory image, and options that change the configuration or
ask for more output.  `CommandLine.run` does the work in any monad that can read and write files
(`Host`), so that it is the same with real files and with files given as values.

The program ends with status 0, with status 2 if the arguments are refused, and with status 1 if
anything fails after that; only a run of status 0 prints anything.
-/

set_option autoImplicit false

namespace DisplayRaster

namespace CommandLine

/-! ## Numbers -/

/-- The digits of an unsigned number, which may have a plus sign in front. -/
def unsignedDigits : List Char → List Char
  | '+' :: rest => rest
  | digits => digits

/-- An unsigned number below `bound`: at least one digit, and nothing else but a plus sign in
front. -/
def unsigned? (base bound : Nat) (text : List Char) : Option Nat := do
  let digits ← (unsignedDigits text).mapM (Toml.digit? base)
  let n := Toml.ofDigits base digits
  if !digits.isEmpty && n < bound then return n else none

/-- An address: hexadecimal after `0x` or `0X`, decimal otherwise. -/
def address? (text : String) : Option UInt32 :=
  let value :=
    match text.toList with
    | '0' :: 'x' :: digits | '0' :: 'X' :: digits => unsigned? 16 UInt32.size digits
    | digits => unsigned? 10 UInt32.size digits
  value.map UInt32.ofNat

/-- A count. -/
def count? (text : String) : Option Nat := unsigned? 10 UInt64.size text.toList

/-- The name of a file; it is not empty. -/
def fileName? (text : String) : Option String := if text = "" then none else some text

/-! ## Arguments -/

/-- What the arguments ask for. -/
structure Options where
  /-- The memory image. -/
  image : Option String
  /-- The configuration file. -/
  config : Option String
  source : Option FrameSource
  start : Option UInt32
  budget : Option Nat
  /-- The file that the display bytes are written to. -/
  dump : Option String
  /-- Whether to print a summary instead of the checksum alone. -/
  json : Bool
  deriving DecidableEq

/-- No arguments. -/
def Options.empty : Options := ⟨none, none, none, none, none, none, false⟩

/-- Why no frame is rendered. -/
inductive Refusal where
  /-- The arguments ask for help. -/
  | help
  /-- The arguments make no sense. -/
  | invalid
  deriving DecidableEq

/-- The options that take a value. -/
inductive Setting where
  | config
  | source
  | start
  | budget
  | dump
  deriving DecidableEq

/-- What an option is. -/
inductive Flag where
  | setting (s : Setting)
  | json
  | help
  deriving DecidableEq

/-- The option of a long name. -/
def Flag.ofName? (name : String) : Option Flag :=
  match name with
  | "config" => some (.setting .config)
  | "frontend" => some (.setting .source)
  | "start" => some (.setting .start)
  | "budget" => some (.setting .budget)
  | "dump" => some (.setting .dump)
  | "json" => some .json
  | "help" => some .help
  | _ => none

/-- The option of a letter. -/
def Flag.ofLetter? (letter : Char) : Option Flag :=
  match letter with
  | 'c' => some (.setting .config)
  | 'f' => some (.setting .source)
  | 's' => some (.setting .start)
  | 'n' => some (.setting .budget)
  | _ => none

/-- Give a value that has not been given yet; none if it has been, or if there is no value. -/
def once {α : Type} (old new : Option α) : Option (Option α) :=
  match old, new with
  | none, some value => some (some value)
  | _, _ => none

/-- The options with a setting changed. -/
def Options.set (o : Options) (s : Setting) (text : String) : Option Options :=
  match s with
  | .config => return { o with config := ← once o.config (fileName? text) }
  | .source => return { o with source := ← once o.source (FrameSource.ofName? text) }
  | .start => return { o with start := ← once o.start (address? text) }
  | .budget => return { o with budget := ← once o.budget (count? text) }
  | .dump => return { o with dump := ← once o.dump (fileName? text) }

/-- Where the reading of arguments is. -/
structure Progress where
  options : Options
  /-- The setting whose value is the next argument. -/
  awaiting : Option Setting
  /-- Whether the options are over. -/
  onlyFiles : Bool

/-- Refuse arguments that make no sense. -/
def orRefuse {α : Type} (result : Option α) : Except Refusal α :=
  match result with
  | some a => .ok a
  | none => .error .invalid

/-- The progress after an option, with the value attached to it if there is one. -/
def Progress.flag (p : Progress) (flag : Flag) (attached : Option String) :
    Except Refusal Progress :=
  match flag, attached with
  | .setting s, some text => return { p with options := ← orRefuse (p.options.set s text) }
  | .setting s, none => return { p with awaiting := some s }
  | .json, none =>
    if p.options.json then .error .invalid
    else return { p with options := { p.options with json := true } }
  | .help, none => .error .help
  | _, some _ => .error .invalid

/-- The progress after a file name. -/
def Progress.file (p : Progress) (text : String) : Except Refusal Progress :=
  return { p with options :=
    { p.options with image := ← orRefuse (once p.options.image (fileName? text)) } }

/-- The name of a long option and the value attached to it by an equals sign. -/
def splitLong (text : List Char) : String × Option String :=
  let (name, value) := Toml.cutAt (· = '=') text
  (String.ofList name, value.map String.ofList)

/-- The value attached to a letter; an equals sign in front of it is dropped. -/
def attachedTo (text : List Char) : Option String :=
  match text with
  | [] => none
  | '=' :: rest => some (String.ofList rest)
  | text => some (String.ofList text)

/-- The progress after one argument. -/
def Progress.step (p : Progress) (argument : String) : Except Refusal Progress :=
  if p.onlyFiles then p.file argument
  else
    match argument.toList, p.awaiting with
    | '-' :: _ :: _, some _ => .error .invalid
    | _, some s =>
      return { p with awaiting := none, options := ← orRefuse (p.options.set s argument) }
    | ['-', '-'], none => return { p with onlyFiles := true }
    | '-' :: '-' :: long, none => do
      let (name, attached) := splitLong long
      p.flag (← orRefuse (Flag.ofName? name)) attached
    | '-' :: 'h' :: _, none => .error .help
    | '-' :: letter :: rest, none => do
      p.flag (← orRefuse (Flag.ofLetter? letter)) (attachedTo rest)
    | _, none => p.file argument

/-- The options of the arguments.  There has to be a memory image, and no setting may be left
without its value. -/
def Options.parse (arguments : List String) : Except Refusal Options := do
  let p ← arguments.foldlM Progress.step ⟨.empty, none, false⟩
  if p.awaiting.isNone && p.options.image.isSome then return p.options else .error .invalid

/-- A configuration with the settings of the options. -/
def Options.override (o : Options) (config : Config) : Config :=
  let p := config.pipeline
  { config with
    pipeline := { p with
      source := o.source.getD p.source
      start := o.start.getD p.start
      budget := o.budget.getD p.budget } }

/-! ## Output -/

/-- What is printed about a frame. -/
structure Summary where
  source : FrameSource
  width : UInt32
  height : UInt32
  counts : FrameCounts
  checksum : UInt32

namespace Summary

/-- A text between double quotation marks. -/
def quoted (text : String) : String :=
  let mark := String.singleton Toml.Quotation.doubleMark
  mark ++ text ++ mark

/-- The members of a summary, with their values as written. -/
def members (r : Summary) : List (String × String) :=
  [("frontend", quoted r.source.name),
    ("width", toString r.width.toNat),
    ("height", toString r.height.toNat),
    ("commands", toString r.counts.commands),
    ("words", toString r.counts.words),
    ("crc32", quoted (Checksum.text r.checksum))]

/-- The summary as a JSON object, one member a line. -/
def json (r : Summary) : String :=
  let lines := r.members.map fun m ↦ "  " ++ quoted m.1 ++ ": " ++ m.2
  "\x7b\n" ++ ",\n".intercalate lines ++ "\n\x7d"

end Summary

/-- The output for a frame. -/
def Options.output (o : Options) (r : Summary) : String :=
  (if o.json then r.json else Checksum.text r.checksum) ++ "\n"

/-! ## The program -/

/-- A place with files. -/
structure Host (m : Type → Type) where
  /-- The bytes of a file, if it can be read. -/
  load : String → m (Option ByteArray)
  /-- Write a file, and tell whether that was possible. -/
  save : String → ByteArray → m Bool

/-- How a program ended. -/
structure Ending where
  status : UInt8
  output : String
  /-- What went wrong, if anything did after the arguments were read. -/
  error : Option Error
  deriving DecidableEq

/-- The end of a program that has failed. -/
def Ending.failure (e : Error) : Ending := ⟨1, "", some e⟩

/-- The end of a program that has refused its arguments; asking for help is no failure. -/
def Ending.refusal : Refusal → Ending
  | .help => ⟨0, "", none⟩
  | .invalid => ⟨2, "", none⟩

variable {m : Type → Type} [Monad m]

/-- The configuration that the options name. -/
def Host.config (host : Host m) (o : Options) : ExceptT Error m Config := do
  match o.config with
  | none => return .default
  | some path => ofExcept (Config.ofFile (← host.load path))

/-- The system with the memory image that the options name. -/
def Host.system (host : Host m) (o : Options) (config : Config) : ExceptT Error m System := do
  match ← host.load (o.image.getD "") with
  | some image => ofExcept ((System.ofConfig config).loadImage image)
  | none => throw .file

/-- Render the frame that the options ask for, and give the output. -/
def Host.frame (host : Host m) (o : Options) : ExceptT Error m String := do
  let config := o.override (← host.config o)
  let (system, result) := (← host.system o config).runFrame config.pipeline
  let counts ← ofExcept result
  match o.dump with
  | some path => if !(← host.save path system.scanout) then throw .file
  | none => pure ()
  let fb := config.framebuffer
  return o.output ⟨config.pipeline.source, fb.width, fb.height, counts, system.checksum⟩

/-- The program. -/
def run (host : Host m) (arguments : List String) : m Ending := do
  match Options.parse arguments with
  | .error refusal => return .refusal refusal
  | .ok o =>
    match ← (host.frame o).run with
    | .ok output => return ⟨0, output, none⟩
    | .error e => return .failure e

end CommandLine

end DisplayRaster
