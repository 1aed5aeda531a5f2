import Amd64.Arithmetic
import Amd64.Semantics.Exec

namespace Amd64

/-!
# Integer instructions

Arithmetic, comparison, shifts, multiplication, division and flag instructions. Operands are read before
anything is written, and flags are written last.
-/

namespace Exec

variable {σ : Type} [Bus σ]

/-- Replaces an operand by the result of an operation on it and sets the flags of the operation. -/
def update (dst : Location) (w : Width) (f : Flags → UInt64 → UInt64 × Flags) : Exec σ Unit := do
  let a ← dst.read w
  let (r, flags) := f (← cpu).flags a
  dst.write w r
  setFlags flags

/-- Two-operand arithmetic. -/
def arith (op : ArithOp) (dst src : Location) (w : Width) : Exec σ Unit := do
  let a ← dst.read w
  let b ← src.read w
  let (r, flags) := op.apply (← cpu).flags w a b
  dst.write w r
  setFlags flags

/-- The flags of a difference. -/
def cmp (lhs rhs : Location) (w : Width) : Exec σ Unit := do
  let a ← lhs.read w
  let b ← rhs.read w
  setFlags (subFlags (← cpu).flags w a b false).2

/-- The flags of a bitwise conjunction. -/
def test (lhs rhs : Location) (w : Width) : Exec σ Unit := do
  let a ← lhs.read w
  let b ← rhs.read w
  setFlags (logicFlags (← cpu).flags w (a &&& b)).2

/-- Bitwise complement, without flags. -/
def complement (dst : Location) (w : Width) : Exec σ Unit := do
  let a ← dst.read w
  dst.write w (~~~a)

/-- Writes a pair of results: high and low byte of `ax` at 8 bits, else the data register and the
accumulator. -/
def writePair (w : Width) (low high : UInt64) : Exec σ Unit :=
  match w with
  | .w8 => writeReg (.low .rax .w16) (low ||| (high <<< 8))
  | _ => do
    writeReg (.low .rax w) low
    writeReg (.low .rdx w) high

/-- The high half of the dividend. -/
def highHalf (s : Cpu) (w : Width) : UInt64 :=
  match w with
  | .w8 => s.readReg (.high .rax)
  | _ => s.readReg (.low .rdx w)

/-- Double-width product with the accumulator. -/
def multiply (product : Width → UInt64 → UInt64 → Product) (src : Location) (w : Width) :
    Exec σ Unit := do
  let b ← src.read w
  let s ← cpu
  let p := product w (s.readReg (.low .rax w)) b
  writePair w p.low p.high
  setFlags (s.flags.withCarryOverflow p.overflow p.overflow)

/-- Quotient and remainder of the double-width accumulator. -/
def divide (quotient : Width → UInt64 → UInt64 → UInt64 → Option (UInt64 × UInt64)) (src : Location)
    (w : Width) : Exec σ Unit := do
  let d ← src.read w
  let s ← cpu
  match quotient w (highHalf s w) (s.readReg (.low .rax w)) d with
  | none => throw (.divide s.rip)
  | some (q, r) => writePair w q r

/-- Multiplication and division of the double-width accumulator. -/
def mulDiv (op : MulDivOp) (src : Location) (w : Width) : Exec σ Unit :=
  match op with
  | .mul => multiply mulWide src w
  | .imul => multiply imulWide src w
  | .div => divide divWide? src w
  | .idiv => divide idivWide? src w

/-- Low half of a signed product. -/
def imul (dst : Reg) (src : Location) (imm : Option UInt64) (w : Width) : Exec σ Unit := do
  let b ← src.read w
  let s ← cpu
  let a := match imm with
    | some v => w.truncate v
    | none => s.readReg dst
  let p := imulWide w a b
  writeReg dst p.low
  setFlags (s.flags.withCarryOverflow p.overflow p.overflow)

/-- The count of a shift before it is masked. -/
def rawCount (s : Cpu) : ShiftCount → Nat
  | .imm n => n.toNat
  | .cl => (s.readReg (.low .rcx .w8)).toNat

/-- Shift or rotation. A count of zero writes the operand back and keeps all flags. -/
def shift (op : ShiftOp) (dst : Location) (count : ShiftCount) (w : Width) : Exec σ Unit := do
  let n := maskedCount w (rawCount (← cpu) count)
  update dst w fun flags a => if n = 0 then (a, flags) else shiftFlags op flags w a n

/-- Changes one flag. -/
def flag (op : FlagOp) : Exec σ Unit := do
  let f := (← cpu).flags
  setFlags <| match op with
    | .clc => { f with carry := false }
    | .stc => { f with carry := true }
    | .cmc => { f with carry := !f.carry }
    | .cld => { f with direction := false }
    | .std => { f with direction := true }

end Exec

end Amd64
