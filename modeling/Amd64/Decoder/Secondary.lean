import Amd64.Decoder.Operands
import Amd64.Instruction.Operation

namespace Amd64

/-!
# The opcodes behind `0x0f`

`Prefixes.secondary` reads an instruction whose opcode is the byte `0x0f` and one more byte. Most of these
instructions work on vector registers, and the mandatory prefix selects one of several that share an
opcode.
-/

namespace Prefixes

/-- A vector operation from an operand to a register. -/
def sseLoad (p : Prefixes) (op : SseOp) : Reader Operation := do
  let m ← p.modRm
  return .sse op (vecRegister .xmm m.reg) (vecOperand .xmm m.rm)

/-- A vector operation from a register to an operand. -/
def sseStore (p : Prefixes) (op : SseOp) : Reader Operation := do
  let m ← p.modRm
  return .sse op (vecOperand .xmm m.rm) (vecRegister .xmm m.reg)

/-- A vector operation that needs the prefix `0x66`. -/
def sse66 (p : Prefixes) (op : SseOp) : Reader Operation :=
  if p.mandatory = .p66 then p.sseLoad op else Reader.unsupported

/-- Unaligned and scalar moves: `0x10` and `0x11`. -/
def unalignedMove (p : Prefixes) : SseOp :=
  match p.mandatory with
  | .none => .movePacked .movups
  | .p66 => .movePacked .movupd
  | .f3 => .moveScalar .single
  | .f2 => .moveScalar .double

/-- Aligned moves: `0x28` and `0x29`. -/
def alignedMove? (p : Prefixes) : Option SseOp :=
  match p.mandatory with
  | .none => some (.movePacked .movaps)
  | .p66 => some (.movePacked .movapd)
  | _ => none

/-- Moves of integer vectors: `0x6f` and `0x7f`. -/
def integerMove? (p : Prefixes) : Option SseOp :=
  match p.mandatory with
  | .p66 => some (.movePacked .movdqa)
  | .f3 => some (.movePacked .movdqu)
  | _ => none

/-- The precision of a scalar instruction. -/
def scalarPrecision? (p : Prefixes) : Option Precision :=
  match p.mandatory with
  | .f3 => some .single
  | .f2 => some .double
  | _ => none

/-- The precision of a packed instruction. -/
def packedPrecision? (p : Prefixes) : Option Precision :=
  match p.mandatory with
  | .none => some .single
  | .p66 => some .double
  | _ => none

/-- Scalar arithmetic of an opcode. -/
def floatOp (op : UInt8) : FloatOp :=
  if op = 0x51 then .sqrt
  else if op = 0x58 then .add
  else if op = 0x59 then .mul
  else if op = 0x5c then .sub
  else .div

/-- Bitwise operations on floating-point vectors: `0x54`, `0x56` and `0x57`. -/
def floatLogic (op : UInt8) : Precision → LogicOp
  | .single => if op = 0x54 then .andps else if op = 0x56 then .orps else .xorps
  | .double => if op = 0x54 then .andpd else if op = 0x56 then .orpd else .xorpd

/-- Conversion from an integer: `0x2a`. -/
def convertOfInteger (p : Prefixes) : Reader Operation := do
  let some precision := p.scalarPrecision? | Reader.unsupported
  let m ← p.modRm
  return .sse (.ofInteger precision p.gprWidth) (vecRegister .xmm m.reg)
    (p.operand m.rm p.gprWidth)

/-- Conversion to an integer: `0x2c`. -/
def convertToInteger (p : Prefixes) : Reader Operation := do
  let some precision := p.scalarPrecision? | Reader.unsupported
  let m ← p.modRm
  return .sse (.toInteger precision p.gprWidth) (p.regOperand m.reg p.gprWidth)
    (vecOperand .xmm m.rm)

/-- The move between a vector register and an operand of the width of general-purpose registers. -/
def gprMove (p : Prefixes) : SseOp :=
  if p.gprWidth = .w64 then .movq else .movd

/-- Moves out of a vector register, and a move of 64 bits into one: `0x7e`. -/
def moveOut (p : Prefixes) : Reader Operation := do
  match p.mandatory with
  | .p66 =>
    let m ← p.modRm
    return .sse p.gprMove (p.operand m.rm p.gprWidth) (vecRegister .xmm m.reg)
  | .f3 => p.sseLoad .movq
  | _ => Reader.unsupported

/-- Moves into a vector register: `0x6e`. -/
def moveIn (p : Prefixes) : Reader Operation := do
  if p.mandatory = .p66 then
    let m ← p.modRm
    return .sse p.gprMove (vecRegister .xmm m.reg) (p.operand m.rm p.gprWidth)
  else Reader.unsupported

/-- The shift by an immediate count that an opcode and its extension select. -/
def immediateShift? (op : UInt8) (digit : Fin 8) : Option SseOp :=
  match op.toNat, digit.val with
  | 0x71, 2 => some (.shiftLanes .right .w16)
  | 0x71, 4 => some (.shiftLanes .arithmetic .w16)
  | 0x71, 6 => some (.shiftLanes .left .w16)
  | 0x72, 2 => some (.shiftLanes .right .w32)
  | 0x72, 4 => some (.shiftLanes .arithmetic .w32)
  | 0x72, 6 => some (.shiftLanes .left .w32)
  | 0x73, 2 => some (.shiftLanes .right .w64)
  | 0x73, 3 => some (.shiftBytes .right)
  | 0x73, 6 => some (.shiftLanes .left .w64)
  | 0x73, 7 => some (.shiftBytes .left)
  | _, _ => none

/-- Shifts of vector registers by an immediate count: `0x71` to `0x73`. -/
def vectorShiftGroup (p : Prefixes) (op : UInt8) : Reader Operation := do
  if p.mandatory ≠ .p66 then Reader.unsupported
  else
    let m ← p.modRm
    match m.rm with
    | .mem _ => Reader.invalid
    | .reg code =>
      let some shift := immediateShift? op m.digit | Reader.invalid
      let count ← Reader.byte
      return .sse shift (vecRegister .xmm code) (.imm count.toUInt64)

/-- Collection of sign bits: `0xd7`. -/
def moveMask (p : Prefixes) : Reader Operation := do
  if p.mandatory ≠ .p66 then Reader.unsupported
  else
    let m ← p.modRm
    match m.rm with
    | .mem _ => Reader.invalid
    | .reg code =>
      return .sse .moveMask (p.regOperand m.reg p.gprWidth) (vecRegister .xmm code)

/-- Conversion between precisions: `0x5a`. -/
def convertPrecision (p : Prefixes) : Reader Operation :=
  match p.scalarPrecision? with
  | some .single => p.sseLoad .widen
  | some .double => p.sseLoad .narrow
  | none => Reader.unsupported

/-- The operation on integer vectors of an opcode that needs the prefix `0x66`. -/
def integerVectorOp? (op : UInt8) : Option SseOp :=
  match op.toNat with
  | 0x74 => some (.lanes .cmpeq .w8)
  | 0x75 => some (.lanes .cmpeq .w16)
  | 0x76 => some (.lanes .cmpeq .w32)
  | 0xd1 => some (.shiftLanes .right .w16)
  | 0xd2 => some (.shiftLanes .right .w32)
  | 0xd3 => some (.shiftLanes .right .w64)
  | 0xd4 => some (.lanes .add .w64)
  | 0xdb => some (.logic .pand)
  | 0xdf => some (.logic .pandn)
  | 0xe1 => some (.shiftLanes .arithmetic .w16)
  | 0xe2 => some (.shiftLanes .arithmetic .w32)
  | 0xeb => some (.logic .por)
  | 0xef => some (.logic .pxor)
  | 0xf1 => some (.shiftLanes .left .w16)
  | 0xf2 => some (.shiftLanes .left .w32)
  | 0xf3 => some (.shiftLanes .left .w64)
  | 0xf8 => some (.lanes .sub .w8)
  | 0xf9 => some (.lanes .sub .w16)
  | 0xfa => some (.lanes .sub .w32)
  | 0xfb => some (.lanes .sub .w64)
  | 0xfc => some (.lanes .add .w8)
  | 0xfd => some (.lanes .add .w16)
  | 0xfe => some (.lanes .add .w32)
  | _ => none

/-- Conditional moves: `0x40` to `0x4f`. -/
def conditionalMove (p : Prefixes) (op : UInt8) : Reader Operation := do
  let m ← p.modRm
  return .cmovcc (.ofOpcode op) (p.reg m.reg p.width) (p.operand m.rm p.width) p.width

/-- Extensions of bytes and 16-bit words: `0xb6`, `0xb7`, `0xbe` and `0xbf`. -/
def extendingMove (p : Prefixes) (op : UInt8) : Reader Operation := do
  let w : Width := if op &&& 1 = 0 then .w8 else .w16
  let m ← p.modRm
  if op < 0xbe then return .movzx (p.reg m.reg p.width) (p.operand m.rm w) w
  else return .movsx (p.reg m.reg p.width) (p.operand m.rm w) w

/-- Reads the rest of an instruction whose opcode is `0x0f` and `op`. -/
def secondary (p : Prefixes) (op : UInt8) : Reader Operation := do
  if op = 0x05 then return .syscall
  else if op = 0x0b then return .ud2
  else if op = 0x10 then p.sseLoad p.unalignedMove
  else if op = 0x11 then p.sseStore p.unalignedMove
  else if 0x18 ≤ op ∧ op ≤ 0x1f then
    let _ ← p.modRm
    return .nop
  else if op = 0x28 then
    let some move := p.alignedMove? | Reader.invalid
    p.sseLoad move
  else if op = 0x29 then
    let some move := p.alignedMove? | Reader.invalid
    p.sseStore move
  else if op = 0x2a then p.convertOfInteger
  else if op = 0x2c then p.convertToInteger
  else if op = 0x2e ∨ op = 0x2f then
    let some precision := p.packedPrecision? | Reader.invalid
    p.sseLoad (.compare (op = 0x2f) precision)
  else if 0x40 ≤ op ∧ op ≤ 0x4f then p.conditionalMove op
  else if op = 0x51 ∨ op = 0x58 ∨ op = 0x59 ∨ op = 0x5c ∨ op = 0x5e then
    let some precision := p.scalarPrecision? | Reader.unsupported
    p.sseLoad (.float (floatOp op) precision)
  else if op = 0x54 ∨ op = 0x56 ∨ op = 0x57 then
    let some precision := p.packedPrecision? | Reader.invalid
    p.sseLoad (.logic (floatLogic op precision))
  else if op = 0x5a then p.convertPrecision
  else if op = 0x6e then p.moveIn
  else if op = 0x6f then
    let some move := p.integerMove? | Reader.unsupported
    p.sseLoad move
  else if 0x71 ≤ op ∧ op ≤ 0x73 then p.vectorShiftGroup op
  else if op = 0x7e then p.moveOut
  else if op = 0x7f then
    let some move := p.integerMove? | Reader.unsupported
    p.sseStore move
  else if 0x80 ≤ op ∧ op ≤ 0x8f then return .jcc (.ofOpcode op) (← Reader.immediate .w32)
  else if 0x90 ≤ op ∧ op ≤ 0x9f then
    let m ← p.modRm
    return .setcc (.ofOpcode op) (p.operand m.rm .w8)
  else if op = 0xaf then
    let m ← p.modRm
    return .imul (p.reg m.reg p.width) (p.operand m.rm p.width) none p.width
  else if op = 0xb6 ∨ op = 0xb7 ∨ op = 0xbe ∨ op = 0xbf then p.extendingMove op
  else if op = 0xd6 then
    if p.mandatory = .p66 then p.sseStore .movq else Reader.unsupported
  else if op = 0xd7 then p.moveMask
  else if op = 0xff then Reader.invalid
  else
    match integerVectorOp? op with
    | some vectorOp => p.sse66 vectorOp
    | none => Reader.unsupported

end Prefixes

end Amd64
