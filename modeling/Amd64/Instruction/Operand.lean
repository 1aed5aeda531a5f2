import Amd64.Register
import Amd64.Text.Hex

namespace Amd64

/-!
# Operands

* `VecReg`   — a vector register seen at 128 or 256 bits;
* `Address`  — a memory operand `segment:[base + index * scale + displacement]`;
* `Operand`  — a register, a vector register, a memory operand or an immediate value.

`Operand.text` is the form of an operand in disassembly.
-/

/-- How much of a vector register an operand sees. -/
inductive VecSize where
  | xmm
  | ymm
deriving DecidableEq, Inhabited

/-- Number of bits. -/
def VecSize.bits : VecSize → Nat
  | xmm => 128
  | ymm => 256

/-- A vector register as an operand sees it. -/
structure VecReg where
  index : Fin 16
  size : VecSize
deriving DecidableEq, Inhabited

/-- Name in disassembly. -/
def VecReg.name (v : VecReg) : String :=
  match v.size with
  | .xmm => "xmm" ++ toString v.index.val
  | .ymm => "ymm" ++ toString v.index.val

/-- A segment register whose base counts in 64-bit mode. -/
inductive SegmentRegister where
  | fs
  | gs
deriving DecidableEq, Inhabited

/-- Name in disassembly. -/
def SegmentRegister.name : SegmentRegister → String
  | fs => "fs"
  | gs => "gs"

/-- What the index register of an address is multiplied with. -/
inductive Scale where
  | one
  | two
  | four
  | eight
deriving DecidableEq, Inhabited

/-- The factor. -/
def Scale.factor : Scale → Nat
  | one => 1
  | two => 2
  | four => 4
  | eight => 8

/-- What an address starts from. -/
inductive AddressBase where
  /-- Zero. -/
  | zero
  /-- The value of a register. -/
  | register (gpr : Gpr)
  /-- The address of the following instruction. -/
  | next
deriving DecidableEq, Inhabited

/-- A memory operand. -/
structure Address where
  base : AddressBase
  index : Option Gpr
  scale : Scale
  displacement : Int32
  segment : Option SegmentRegister
  /-- The address is cut to 32 bits before the segment's base is added. -/
  narrow : Bool
deriving DecidableEq, Inhabited

namespace Address

/-- Name of an address register: its low 32 bits in a narrow address. -/
def registerName (a : Address) (g : Gpr) : String :=
  if a.narrow then g.name32 else g.name

/-- The starting point as text. -/
def baseText (a : Address) : String :=
  match a.base with
  | .zero => ""
  | .register g => a.registerName g
  | .next => if a.narrow then "eip" else "rip"

/-- The scaled index as text, with a plus sign behind a base. -/
def indexText (a : Address) : String :=
  match a.index with
  | none => ""
  | some g =>
    let sign := if a.base = .zero then "" else "+"
    let factor := if a.scale = .one then "" else "*" ++ toString a.scale.factor
    sign ++ a.registerName g ++ factor

/-- The displacement as text: a 32-bit number if it stands alone, else a signed one that is left out if
it is zero. -/
def displacementText (a : Address) : String :=
  if a.base = .zero ∧ a.index = none then hex0x a.displacement.toUInt32.toNat
  else if a.displacement = 0 then ""
  else if a.displacement < 0 then "-" ++ hex0x a.displacement.toInt.natAbs
  else "+" ++ hex0x a.displacement.toInt.natAbs

/-- Form in disassembly. -/
def text (a : Address) : String :=
  let segment := match a.segment with
    | none => ""
    | some s => s.name ++ ":"
  segment ++ "[" ++ a.baseText ++ a.indexText ++ a.displacementText ++ "]"

end Address

/-- An explicit operand of an instruction. -/
inductive Operand where
  | reg (reg : Reg)
  | vec (reg : VecReg)
  | mem (address : Address)
  /-- An immediate value, extended to 64 bits as its encoding requires. -/
  | imm (value : UInt64)
deriving DecidableEq, Inhabited

namespace Operand

/-- Whether the operand is in memory. -/
def isMem : Operand → Bool
  | mem _ => true
  | _ => false

/-- Form in disassembly. -/
def text : Operand → String
  | reg r => r.name
  | vec v => v.name
  | mem a => a.text
  | imm v => hex0x v.toNat

end Operand

end Amd64
