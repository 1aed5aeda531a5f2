import Amd64.Decoder.Operands
import Amd64.Instruction.Operation

namespace Amd64

/-!
# The primary opcodes

`Prefixes.primary` reads an instruction whose opcode is one byte. The opcodes are arranged in rows of
eight and in groups that share an operand byte; each row and group has a function of its own.

Relative branch targets are read as distances from the end of the instruction.
-/

namespace Prefixes

/-- Arithmetic or comparison, as a three-bit number selects. -/
def arithOrCmp (digit : Fin 8) (dst src : Operand) (w : Width) : Operation :=
  match ArithOp.ofDigit? digit with
  | some op => .arith op dst src w
  | none => .cmp dst src w

/-- The rows of arithmetic below `0x40`. The last two columns hold opcodes that 64-bit mode removed. -/
def arithRow (p : Prefixes) (op : UInt8) : Reader Operation := do
  let digit := bitField op 3
  let w := p.widthOf op
  match (bitField op 0).val with
  | 0 | 1 =>
    let m ← p.modRm
    return arithOrCmp digit (p.operand m.rm w) (p.regOperand m.reg w) w
  | 2 | 3 =>
    let m ← p.modRm
    return arithOrCmp digit (p.regOperand m.reg w) (p.operand m.rm w) w
  | 4 | 5 => return arithOrCmp digit (p.accumulator w) (.imm (← Reader.immediate w)) w
  | _ => Reader.invalid

/-- Arithmetic with an immediate value: `0x80`, `0x81` and `0x83`. -/
def arithGroup (p : Prefixes) (op : UInt8) : Reader Operation := do
  let w := p.widthOf op
  let m ← p.modRm
  let imm ← Reader.immediate (if op = 0x81 then w else .w8)
  return arithOrCmp m.digit (p.operand m.rm w) (.imm imm) w

/-- Tests, exchanges and moves between a register and an operand: `0x84` to `0x8b`. -/
def transferRow (p : Prefixes) (op : UInt8) : Reader Operation := do
  let w := p.widthOf op
  let m ← p.modRm
  let rm := p.operand m.rm w
  let reg := p.regOperand m.reg w
  if op ≤ 0x85 then return .test rm reg w
  else if op ≤ 0x87 then return .xchg rm reg w
  else if op ≤ 0x89 then return .mov rm reg w
  else return .mov reg rm w

/-- Exchanges with the accumulator, one of which does nothing. -/
def exchangeRow (p : Prefixes) (op : UInt8) : Operation :=
  let code := p.opcodeRegister op
  if code.val = 0 then .nop
  else .xchg (p.accumulator p.width) (p.regOperand code p.width) p.width

/-- String instructions. -/
def stringOp (p : Prefixes) (op : UInt8) : Operation :=
  let family : StringOp :=
    if op ≤ 0xa5 then .movs
    else if op ≤ 0xa7 then .cmps
    else if op ≤ 0xab then .stos
    else if op ≤ 0xad then .lods
    else .scas
  let times : Repeat :=
    match p.repeatByte with
    | none => .none
    | some .f3 => if family.compares then .repe else .rep
    | some .f2 => if family.compares then .repne else .rep
  .string family (p.widthOf op) times p.narrow

/-- Moves of an immediate value into a register. -/
def movImmediateRow (p : Prefixes) (op : UInt8) : Reader Operation := do
  let w := if op < 0xb8 then .w8 else p.width
  let imm ← Reader.number w.bytes
  return .mov (p.regOperand (p.opcodeRegister op) w) (.imm (UInt64.ofNat imm)) w

/-- The shift of an opcode extension. Rotations through the carry flag are not decoded. -/
def shiftOf? (digit : Fin 8) : Option ShiftOp :=
  match digit.val with
  | 0 => some .rol
  | 1 => some .ror
  | 4 => some .shl
  | 5 => some .shr
  | 6 => some .shl
  | 7 => some .sar
  | _ => none

/-- Shifts by an immediate count, by one and by the count register. -/
def shiftGroup (p : Prefixes) (op : UInt8) : Reader Operation := do
  let w := p.widthOf op
  let m ← p.modRm
  let some shift := shiftOf? m.digit | Reader.unsupported
  let count ←
    if op ≤ 0xc1 then ShiftCount.imm <$> Reader.byte
    else if op ≤ 0xd1 then pure (.imm 1)
    else pure .cl
  return .shift shift (p.operand m.rm w) count w

/-- Tests, negations, products and quotients: `0xf6` and `0xf7`. -/
def unaryGroup (p : Prefixes) (op : UInt8) : Reader Operation := do
  let w := p.widthOf op
  let m ← p.modRm
  let rm := p.operand m.rm w
  match m.digit.val with
  | 0 | 1 => return .test rm (.imm (← Reader.immediate w)) w
  | 2 => return .not rm w
  | 3 => return .neg rm w
  | 4 => return .mulDiv .mul rm w
  | 5 => return .mulDiv .imul rm w
  | 6 => return .mulDiv .div rm w
  | _ => return .mulDiv .idiv rm w

/-- Increment and decrement of a byte: `0xfe`. -/
def byteStepGroup (p : Prefixes) : Reader Operation := do
  let m ← p.modRm
  let rm := p.operand m.rm .w8
  match m.digit.val with
  | 0 => return .inc rm .w8
  | 1 => return .dec rm .w8
  | _ => Reader.invalid

/-- Increment, decrement, indirect branches and push: `0xff`. Far branches are not decoded. -/
def wordGroup (p : Prefixes) : Reader Operation := do
  let m ← p.modRm
  match m.digit.val with
  | 0 => return .inc (p.operand m.rm p.width) p.width
  | 1 => return .dec (p.operand m.rm p.width) p.width
  | 2 => return .callIndirect (p.operand m.rm .w64)
  | 4 => return .jmpIndirect (p.operand m.rm .w64)
  | 6 => return .push (p.operand m.rm p.stackWidth) p.stackWidth
  | 3 | 5 => Reader.unsupported
  | _ => Reader.invalid

/-- Sign extension of 32 bits: `0x63`. -/
def signExtendDword (p : Prefixes) : Reader Operation := do
  let m ← p.modRm
  return .movsx (p.reg m.reg p.width) (p.operand m.rm .w32) .w32

/-- Products with an immediate value: `0x69` and `0x6b`. -/
def imulImmediate (p : Prefixes) (op : UInt8) : Reader Operation := do
  let m ← p.modRm
  let imm ← Reader.immediate (if op = 0x6b then .w8 else p.width)
  return .imul (p.reg m.reg p.width) (p.operand m.rm p.width) (some imm) p.width

/-- Address computation: `0x8d`. -/
def loadAddress (p : Prefixes) : Reader Operation := do
  let m ← p.modRm
  match m.rm with
  | .mem a => return .lea (p.reg m.reg p.width) a
  | .reg _ => Reader.invalid

/-- Pop into an operand: `0x8f`. -/
def popGroup (p : Prefixes) : Reader Operation := do
  let m ← p.modRm
  if m.digit.val = 0 then return .pop (p.operand m.rm p.stackWidth) p.stackWidth
  else Reader.unsupported

/-- Moves of an immediate value into an operand: `0xc6` and `0xc7`. -/
def movGroup (p : Prefixes) (op : UInt8) : Reader Operation := do
  let w := p.widthOf op
  let m ← p.modRm
  if m.digit.val = 0 then return .mov (p.operand m.rm w) (.imm (← Reader.immediate w)) w
  else Reader.unsupported

/-- Opcodes that 64-bit mode removed. -/
def isRemoved (op : UInt8) : Bool :=
  [0x60, 0x61, 0x62, 0x82, 0x9a, 0xce, 0xd4, 0xd5, 0xd6, 0xea].contains op

/-- Reads the rest of an instruction with a one-byte opcode. -/
def primary (p : Prefixes) (op : UInt8) : Reader Operation := do
  if op < 0x40 then p.arithRow op
  else if 0x50 ≤ op ∧ op ≤ 0x57 then
    return .push (p.regOperand (p.opcodeRegister op) p.stackWidth) p.stackWidth
  else if 0x58 ≤ op ∧ op ≤ 0x5f then
    return .pop (p.regOperand (p.opcodeRegister op) p.stackWidth) p.stackWidth
  else if op = 0x63 then p.signExtendDword
  else if op = 0x68 then return .push (.imm (← Reader.immediate p.stackWidth)) p.stackWidth
  else if op = 0x6a then return .push (.imm (← Reader.immediate .w8)) p.stackWidth
  else if op = 0x69 ∨ op = 0x6b then p.imulImmediate op
  else if 0x70 ≤ op ∧ op ≤ 0x7f then return .jcc (.ofOpcode op) (← Reader.immediate .w8)
  else if op = 0x80 ∨ op = 0x81 ∨ op = 0x83 then p.arithGroup op
  else if 0x84 ≤ op ∧ op ≤ 0x8b then p.transferRow op
  else if op = 0x8d then p.loadAddress
  else if op = 0x8f then p.popGroup
  else if 0x90 ≤ op ∧ op ≤ 0x97 then return p.exchangeRow op
  else if op = 0x98 then return .extendAcc p.width
  else if op = 0x99 then return .fillData p.width
  else if (0xa4 ≤ op ∧ op ≤ 0xa7) ∨ (0xaa ≤ op ∧ op ≤ 0xaf) then return p.stringOp op
  else if op = 0xa8 ∨ op = 0xa9 then
    return .test (p.accumulator (p.widthOf op)) (.imm (← Reader.immediate (p.widthOf op)))
      (p.widthOf op)
  else if 0xb0 ≤ op ∧ op ≤ 0xbf then p.movImmediateRow op
  else if op = 0xc0 ∨ op = 0xc1 ∨ (0xd0 ≤ op ∧ op ≤ 0xd3) then p.shiftGroup op
  else if op = 0xc2 then return .ret (UInt16.ofNat (← Reader.number 2))
  else if op = 0xc3 then return .ret 0
  else if op = 0xc6 ∨ op = 0xc7 then p.movGroup op
  else if op = 0xe8 then return .call (← Reader.immediate .w32)
  else if op = 0xe9 then return .jmp (← Reader.immediate .w32)
  else if op = 0xeb then return .jmp (← Reader.immediate .w8)
  else if op = 0xf4 then return .hlt
  else if op = 0xf5 then return .flag .cmc
  else if op = 0xf6 ∨ op = 0xf7 then p.unaryGroup op
  else if op = 0xf8 then return .flag .clc
  else if op = 0xf9 then return .flag .stc
  else if op = 0xfc then return .flag .cld
  else if op = 0xfd then return .flag .std
  else if op = 0xfe then p.byteStepGroup
  else if op = 0xff then p.wordGroup
  else if isRemoved op then Reader.invalid
  else Reader.unsupported

end Prefixes

end Amd64
