import DisplayRaster.Color

/-!
# Blend modes

How a color meets the one it is drawn over.  The three modes have a number each; an older on/off
switch reaches only two of them.
-/

set_option autoImplicit false

namespace DisplayRaster

/-- How a color meets the one it is drawn over. -/
inductive BlendMode where
  /-- The new color replaces the old one. -/
  | off
  /-- The average of both, channel by channel; opaque if either is. -/
  | average
  /-- The new color replaces the old one iff it is opaque. -/
  | opaqueOnly
  deriving DecidableEq

namespace BlendMode

/-- The mode of a stream word. -/
def ofBits (bits : UInt32) : BlendMode :=
  match bits with
  | 1 => .average
  | 2 => .opaqueOnly
  | _ => .off

/-- The stream word of a mode. -/
def toBits : BlendMode → UInt32
  | .off => 0
  | .average => 1
  | .opaqueOnly => 2

@[simp]
theorem ofBits_toBits (m : BlendMode) : ofBits m.toBits = m := by cases m <;> decide

/-- The mode an on/off switch selects: averaging or none. -/
def ofSwitch (enabled : Bool) : BlendMode := if enabled then .average else .off

/-- The mode of a switch's stream word: on iff it is not zero. -/
def ofSwitchBits (bits : UInt32) : BlendMode := ofSwitch (bits != 0)

/-- The average of two packed colors, rounded down; opaque if either is. -/
def mean (old new : UInt16) : UInt16 :=
  let d := Color.ofPacked old
  let s := Color.ofPacked new
  Color.toPacked ⟨(d.r + s.r) >>> 1, (d.g + s.g) >>> 1, (d.b + s.b) >>> 1, d.a || s.a⟩

/-- The color stored when `new` is drawn on `old`, or none if `old` stays. -/
def blend (mode : BlendMode) (old new : UInt16) : Option UInt16 :=
  match mode with
  | .off => some new
  | .average => some (mean old new)
  | .opaqueOnly => if new &&& 1 != 0 then some new else none

end BlendMode

end DisplayRaster
