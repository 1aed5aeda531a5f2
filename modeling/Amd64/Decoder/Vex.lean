import Amd64.Decoder.Operands
import Amd64.Instruction.Operation

namespace Amd64

/-!
# The VEX encoding

A VEX encoding begins with `0xc4` or `0xc5`. One or two bytes of fields follow, which take the place of all
prefixes that select or extend, then the opcode. Register fields are stored inverted.

* `VexFields`    — the fields;
* `Prefixes.vex` — reads an instruction in this encoding.
-/

/-- The fields of a VEX encoding. -/
structure VexFields where
  extension : Extension
  /-- The set of opcodes. -/
  opcodeMap : UInt8
  /-- The second source register. -/
  register : Fin 16
  size : VecSize
  /-- Stands for the mandatory prefix. -/
  mandatory : Mandatory
deriving DecidableEq, Inhabited

namespace VexFields

/-- The register that is stored inverted in bits 3 to 6. -/
def registerField (byte : UInt8) : Fin 16 :=
  ⟨((~~~byte).toNat >>> 3) % 16, Nat.mod_lt _ (by decide)⟩

/-- The size in bit 2. -/
def sizeField (byte : UInt8) : VecSize :=
  if byte &&& 4 = 0 then .xmm else .ymm

/-- The mandatory prefix in bits 0 and 1. -/
def mandatoryField (byte : UInt8) : Mandatory :=
  match (byte &&& 3).toNat with
  | 0 => .none
  | 1 => .p66
  | 2 => .f3
  | _ => .f2

/-- Reads the byte behind `0xc5`. -/
def readShort : Reader VexFields := do
  let b ← Reader.byte
  return ⟨⟨false, b &&& 0x80 = 0, false, false⟩, 1, registerField b, sizeField b, mandatoryField b⟩

/-- Reads the two bytes behind `0xc4`. -/
def readLong : Reader VexFields := do
  let b ← Reader.byte
  let c ← Reader.byte
  return ⟨⟨c &&& 0x80 ≠ 0, b &&& 0x80 = 0, b &&& 0x40 = 0, b &&& 0x20 = 0⟩, b &&& 0x1f,
    registerField c, sizeField c, mandatoryField c⟩

end VexFields

namespace Prefixes

/-- Whether a prefix precedes a VEX encoding that may not. -/
def forbidsVex (p : Prefixes) : Bool :=
  p.operand16 || p.repeatByte.isSome || p.hasRex || p.lock

/-- Moves of integer vectors. The second source register is not used and has to be zero. -/
def vexMove (p : Prefixes) (f : VexFields) (op : UInt8) : Reader Operation := do
  if f.register.val ≠ 0 then Reader.invalid
  else
    let m ← p.modRm
    let reg := vecRegister f.size m.reg
    let rm := vecOperand f.size m.rm
    let aligned := f.mandatory = .p66
    if op = 0x6f then return .vexMove aligned reg rm else return .vexMove aligned rm reg

/-- Operations on two sources. -/
def vexBinary (p : Prefixes) (f : VexFields) (op : VexOp) : Reader Operation := do
  let m ← p.modRm
  return .vexBinary op ⟨m.reg, f.size⟩ ⟨f.register, f.size⟩ (vecOperand f.size m.rm)

/-- Reads the rest of an instruction that begins with `first`. -/
def vex (p : Prefixes) (first : UInt8) : Reader Operation := do
  if p.forbidsVex then Reader.invalid
  else
    let f ← if first = 0xc5 then VexFields.readShort else VexFields.readLong
    if f.opcodeMap ≠ 1 then Reader.unsupported
    else
      let q := { p with hasRex := false, extension := f.extension }
      let op ← Reader.byte
      if op = 0x77 ∧ f.mandatory = .none then
        if f.size = .ymm then Reader.unsupported
        else if f.register.val ≠ 0 then Reader.invalid
        else return .vzeroupper
      else if (op = 0x6f ∨ op = 0x7f) ∧ (f.mandatory = .p66 ∨ f.mandatory = .f3) then
        q.vexMove f op
      else if op = 0xef ∧ f.mandatory = .p66 then q.vexBinary f .vpxor
      else if op = 0xd4 ∧ f.mandatory = .p66 then q.vexBinary f .vpaddq
      else Reader.unsupported

end Prefixes

end Amd64
