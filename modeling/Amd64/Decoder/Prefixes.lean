import Amd64.Decoder.Reader
import Amd64.Instruction.Operand

namespace Amd64

/-!
# Prefixes

Any number of prefix bytes precedes the opcode. Of the prefixes of one kind the last one counts, and a REX
byte counts only directly before the opcode.

* `Prefixes`       — what the prefixes say;
* `Prefixes.add?`  — takes one more prefix into account;
* `Prefixes.read`  — reads the prefixes and the opcode behind them.
-/

/-- A prefix that repeats a string instruction or selects a vector instruction. -/
inductive RepeatByte where
  | f2
  | f3
deriving DecidableEq, Inhabited

/-- Bits that extend the fields of an encoding. -/
structure Extension where
  /-- Selects 64-bit operands. -/
  w : Bool
  /-- Extends the register field. -/
  r : Bool
  /-- Extends the index field. -/
  x : Bool
  /-- Extends the base, operand or opcode register field. -/
  b : Bool
deriving DecidableEq, Inhabited

namespace Extension

/-- No extension. -/
def empty : Extension := ⟨false, false, false, false⟩

/-- The extension that the low four bits of a REX byte hold. -/
def ofRex (byte : UInt8) : Extension :=
  ⟨byte &&& 8 ≠ 0, byte &&& 4 ≠ 0, byte &&& 2 ≠ 0, byte &&& 1 ≠ 0⟩

end Extension

/-- The mandatory prefix that distinguishes vector instructions with one opcode. -/
inductive Mandatory where
  | none
  | p66
  | f3
  | f2
deriving DecidableEq, Inhabited

/-- What the prefixes of an instruction say. -/
structure Prefixes where
  /-- Operands have 16 bits. -/
  operand16 : Bool
  /-- Addresses have 32 bits. -/
  narrow : Bool
  lock : Bool
  repeatByte : Option RepeatByte
  segment : Option SegmentRegister
  /-- There is a REX byte. -/
  hasRex : Bool
  extension : Extension
deriving DecidableEq, Inhabited

namespace Prefixes

/-- No prefix. -/
def empty : Prefixes := ⟨false, false, false, none, none, false, .empty⟩

/-- Forgets a REX byte that is not directly before the opcode. -/
def dropRex (p : Prefixes) : Prefixes :=
  { p with hasRex := false, extension := .empty }

/-- Takes a prefix into account; nothing if the byte is no prefix. -/
def add? (p : Prefixes) (byte : UInt8) : Option Prefixes :=
  if byte = 0x66 then some { p.dropRex with operand16 := true }
  else if byte = 0x67 then some { p.dropRex with narrow := true }
  else if byte = 0xf0 then some { p.dropRex with lock := true }
  else if byte = 0xf2 then some { p.dropRex with repeatByte := some .f2 }
  else if byte = 0xf3 then some { p.dropRex with repeatByte := some .f3 }
  else if byte = 0x64 then some { p.dropRex with segment := some .fs }
  else if byte = 0x65 then some { p.dropRex with segment := some .gs }
  else if byte = 0x26 ∨ byte = 0x2e ∨ byte = 0x36 ∨ byte = 0x3e then some p.dropRex
  else if byte &&& 0xf0 = 0x40 then some { p with hasRex := true, extension := .ofRex byte }
  else none

/-- Reads prefixes and the byte behind them, given the prefixes before. -/
def readFrom (p : Prefixes) : List UInt8 → Option (Except Refusal (Prefixes × UInt8) × List UInt8)
  | [] => none
  | b :: bs =>
    match p.add? b with
    | some q => readFrom q bs
    | none => some (.ok (p, b), bs)

/-- Reads prefixes and the byte behind them. -/
def read : Reader (Prefixes × UInt8) :=
  ExceptT.mk (readFrom empty)

/-- Width of the operands of most instructions. -/
def width (p : Prefixes) : Width :=
  if p.extension.w then .w64 else if p.operand16 then .w16 else .w32

/-- Width of the operands of an instruction whose opcode has a byte form in its lowest bit. -/
def widthOf (p : Prefixes) (op : UInt8) : Width :=
  if op &&& 1 = 0 then .w8 else p.width

/-- Width of values on the stack. -/
def stackWidth (p : Prefixes) : Width :=
  if p.operand16 && !p.extension.w then .w16 else .w64

/-- Width of the general-purpose operands of vector instructions. -/
def gprWidth (p : Prefixes) : Width :=
  if p.extension.w then .w64 else .w32

/-- The mandatory prefix. A repeat prefix hides an operand-size prefix. -/
def mandatory (p : Prefixes) : Mandatory :=
  match p.repeatByte with
  | some .f3 => .f3
  | some .f2 => .f2
  | none => if p.operand16 then .p66 else .none

end Prefixes

end Amd64
