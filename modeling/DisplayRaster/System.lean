import DisplayRaster.Config
import DisplayRaster.DisplayList.Bytecode
import DisplayRaster.DisplayList.Structured
import DisplayRaster.Memory.Rdram.Basic
import DisplayRaster.Scanout
import DisplayRaster.Stream.Encode
import DisplayRaster.Stream.Interpreter
import DisplayRaster.Video

/-!
# The whole system

Memory, the video registers and the size of the drawable area.  A frame goes from a display list
over drawing commands and a stream in memory to pixels.  A run that fails gives the system back as
the failure left it, and draws nothing.
-/

set_option autoImplicit false

namespace DisplayRaster

/-- The state of the system between frames. -/
structure System where
  memory : Rdram
  video : VideoRegisters
  width : UInt32
  height : UInt32

/-- What a frame took. -/
structure FrameCounts where
  /-- The drawing commands, with the end command. -/
  commands : Nat
  /-- The words of the stream. -/
  words : Nat
  deriving DecidableEq

/-- The counts of a frame that was not translated. -/
def FrameCounts.zero : FrameCounts := ⟨0, 0⟩

namespace System

/-- A system with `size` zero bytes of memory and an empty framebuffer. -/
def blank (size : Nat) : System := ⟨.zeroed size, .zero, 0, 0⟩

/-- The system with the framebuffer placed through the video registers. -/
def placeFramebuffer (s : System) (origin width height stride : UInt32) : System :=
  { s with
    video := (s.video.write VideoRegisters.originOffset origin).write
      VideoRegisters.widthOffset stride
    width := width
    height := height }

/-- A system with standard memory and the framebuffer of a configuration. -/
def ofConfig (config : Config) : System :=
  let fb := config.framebuffer
  (blank Rdram.standardSize).placeFramebuffer fb.origin fb.width fb.height fb.stride

/-- Where the framebuffer is. -/
def framebuffer (s : System) : Framebuffer := s.video.framebuffer s.width s.height

/-- The system with another memory. -/
def withMemory (s : System) (m : Rdram) : System := { s with memory := m }

/-- The system with a memory image laid over the start of memory. -/
def loadImage (s : System) (image : ByteArray) : Except Error System := do
  return s.withMemory (← s.memory.loadImage image)

/-! ## Runs -/

/-- Run the stream at `start` on at most `budget` words. -/
def runStream (s : System) (start : UInt32) (budget : Nat) : System :=
  match s with
  | ⟨m, video, width, height⟩ =>
    ⟨Stream.render (video.framebuffer width height) m start budget, video, width, height⟩

/-- Write the stream of commands into a slot of memory and run it. -/
def runCommands (s : System) (commands : List Command) (slotAddr : UInt32) (slotWords : Nat) :
    System × Except Error FrameCounts :=
  match s with
  | ⟨m, video, width, height⟩ =>
    match Stream.write m slotAddr slotWords commands with
    | (m, .ok words) =>
      (runStream ⟨m, video, width, height⟩ slotAddr words, .ok ⟨commands.length, words⟩)
    | (m, .error e) => (⟨m, video, width, height⟩, .error e)

/-- Translate a structured display list and run it. -/
def runDirectives (s : System) (directives : List DisplayList.Directive) (slotAddr : UInt32)
    (slotWords : Nat) : System × Except Error FrameCounts :=
  s.runCommands (DisplayList.Directive.translate directives) slotAddr slotWords

/-- Translate the display list at `start` and run it. -/
def runDisplayList (s : System) (start : UInt32) (budget : Nat) (slotAddr : UInt32)
    (slotWords : Nat) : System × Except Error FrameCounts :=
  s.runCommands (DisplayList.Bytecode.translate s.memory start budget) slotAddr slotWords

/-- Make one frame as configured.  A stream is run where it is. -/
def runFrame (s : System) (pipeline : Config.Pipeline) : System × Except Error FrameCounts :=
  match pipeline.source with
  | .displayList =>
    s.runDisplayList pipeline.start pipeline.budget pipeline.slotAddr pipeline.slotWords
  | .stream => (s.runStream pipeline.start pipeline.budget, .ok .zero)

/-! ## Display -/

/-- The display bytes of the framebuffer. -/
def scanout (s : System) : ByteArray := s.framebuffer.scanout s.memory

/-- The checksum of the display bytes. -/
def checksum (s : System) : UInt32 := s.framebuffer.checksum s.memory

end System

end DisplayRaster
