/-!
# Combine modes

Where a draw takes its colors from.
-/

set_option autoImplicit false

namespace DisplayRaster

/-- Where a draw takes its colors from. -/
inductive CombineMode where
  /-- From the texture; a draw without one uses the primitive color. -/
  | texture
  /-- From the primitive color. -/
  | primitive
  /-- From the environment color. -/
  | environment
  deriving DecidableEq

namespace CombineMode

/-- The mode in the low two bits of a stream word. -/
def ofBits (bits : UInt32) : CombineMode :=
  match bits &&& 3 with
  | 1 => .primitive
  | 2 => .environment
  | _ => .texture

/-- The stream word of a mode. -/
def toBits : CombineMode → UInt32
  | .texture => 0
  | .primitive => 1
  | .environment => 2

@[simp]
theorem ofBits_toBits (m : CombineMode) : ofBits m.toBits = m := by cases m <;> decide

end CombineMode

end DisplayRaster
