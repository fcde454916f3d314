import DisplayRaster.Stream.Opcode

/-!
# Decoding instructions

`Stream.command` is the command of an opcode with as many operand words as the opcode has, so that
no operand is looked for beyond its end.  Fields narrower than a word keep their low bits, and a
number that names no mode selects the default one.  Vertex attributes that the opcode does not carry
have their defaults.
-/

set_option autoImplicit false

namespace DisplayRaster

namespace Stream

/-- The texture in the first operand words of a textured triangle. -/
def textureOf {n : Nat} (w : Vector UInt32 (16 + n)) : Texture :=
  ⟨w[0], w[1], w[2], w[3]⟩

/-- The vertices in the first operand words of a textured triangle. -/
def coordsOf {n : Nat} (w : Vector UInt32 (16 + n)) : Corners Vertex where
  a := .textured w[4].toInt32 w[5].toInt32 w[6].toInt32 w[7].toInt32
  b := .textured w[8].toInt32 w[9].toInt32 w[10].toInt32 w[11].toInt32
  c := .textured w[12].toInt32 w[13].toInt32 w[14].toInt32 w[15].toInt32

/-- Vertices with the perspective weights `q`. -/
def withWeights (v : Corners Vertex) (q : Corners UInt32) : Corners Vertex :=
  v.zipWith (fun v q ↦ { v with q := q }) q

/-- Vertices with the depths in the low halves of `z`. -/
def withDepths (v : Corners Vertex) (z : Corners UInt32) : Corners Vertex :=
  v.zipWith (fun v z ↦ { v with z := z.toUInt16 }) z

/-- The command of an opcode and its operand words. -/
def command : (op : Opcode) → Vector UInt32 op.operandCount → Command
  | .finish, _ => .finish
  | .gradient, (w : Vector UInt32 2) => .gradient w[0].toUInt16 w[1].toUInt16
  | .tiles, (w : Vector UInt32 2) =>
    .tiles w[0] (w[1] >>> 24).toUInt8 (w[1] >>> 16).toUInt8 w[1].toUInt16
  | .setTable, (w : Vector UInt32 2) => .setTable w[0] w[1]
  | .setBank, (w : Vector UInt32 1) => .setBank (w[0] &&& 0xF).toUInt8
  | .setAddressMode, (w : Vector UInt32 1) => .setAddressMode (.ofBits w[0]) (.ofBits (w[0] >>> 4))
  | .setFilter, (w : Vector UInt32 1) => .setFilter (.ofBits w[0])
  | .setBlendSwitch, (w : Vector UInt32 1) => .setBlendSwitch (w[0] != 0)
  | .setBlend, (w : Vector UInt32 1) => .setBlend (.ofBits w[0])
  | .setScissor, (w : Vector UInt32 4) =>
    .setScissor ⟨w[0].toInt32, w[1].toInt32, w[2].toInt32, w[3].toInt32⟩
  | .setPrimColor, (w : Vector UInt32 1) => .setPrimColor w[0].toUInt16
  | .setEnvColor, (w : Vector UInt32 1) => .setEnvColor w[0].toUInt16
  | .setCombine, (w : Vector UInt32 1) => .setCombine (.ofBits w[0])
  | .setDepthEnabled, (w : Vector UInt32 1) => .setDepthEnabled (w[0] &&& 1 != 0)
  | .setDepthBuffer, (w : Vector UInt32 3) => .setDepthBuffer ⟨w[0], w[1], w[2]⟩
  | .clearDepth, (w : Vector UInt32 1) => .clearDepth w[0].toUInt16
  | .solidTriangle, (w : Vector UInt32 6) =>
    .solidTriangle
      ⟨.position w[0].toInt32 w[1].toInt32, .position w[2].toInt32 w[3].toInt32,
        .position w[4].toInt32 w[5].toInt32⟩
  | .solidTriangleDepth, (w : Vector UInt32 9) =>
    .solidTriangleDepth <| withDepths
      ⟨.position w[0].toInt32 w[1].toInt32, .position w[3].toInt32 w[4].toInt32,
        .position w[6].toInt32 w[7].toInt32⟩ ⟨w[2], w[5], w[8]⟩
  | .rect format, (w : Vector UInt32 5) =>
    .rect ⟨format, w[2], w[0], w[1], w[3].toInt32, w[4].toInt32⟩
  | .texTriangle format .affine, (w : Vector UInt32 (16 + 0)) =>
    .texTriangle format .affine (textureOf w) (coordsOf w)
  | .texTriangle format .perspective, (w : Vector UInt32 (16 + 3)) =>
    .texTriangle format .perspective (textureOf w) (withWeights (coordsOf w) ⟨w[16], w[17], w[18]⟩)
  | .texTriangleDepth .affine, (w : Vector UInt32 (16 + 3)) =>
    .texTriangleDepth .affine (textureOf w) (withDepths (coordsOf w) ⟨w[16], w[17], w[18]⟩)
  | .texTriangleDepth .perspective, (w : Vector UInt32 (16 + 6)) =>
    .texTriangleDepth .perspective (textureOf w) (withDepths
      (withWeights (coordsOf w) ⟨w[16], w[17], w[18]⟩) ⟨w[19], w[20], w[21]⟩)

/-- The command of an opcode is a command of that opcode. -/
theorem opcode_command (op : Opcode) (w : Vector UInt32 op.operandCount) :
    (command op w).opcode = op := by
  cases op with
  | texTriangle f p => cases p <;> rfl
  | texTriangleDepth p => cases p <;> rfl
  | _ => rfl

end Stream

end DisplayRaster
