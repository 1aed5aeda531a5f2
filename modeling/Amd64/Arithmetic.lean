import Amd64.Flags
import Amd64.Instruction.Opcode

namespace Amd64

/-!
# Integer arithmetic with flags

Each operation works on the low bits of its operands at a width and yields a result together with new
flags.

* `addFlags`, `subFlags`, `logicFlags`, `incFlags`, `decFlags`, `negFlags` — the families of arithmetic;
* `shiftFlags`                       — shifts and rotations by a count that is not zero;
* `mulWide`, `imulWide`             — products;
* `divWide?`, `idivWide?`            — quotients, which may not exist.
-/

/-- Whether the low byte has an even number of ones. -/
def evenParity (r : UInt64) : Bool :=
  let a := r ^^^ (r >>> 4)
  let b := a ^^^ (a >>> 2)
  let c := b ^^^ (b >>> 1)
  c &&& 1 = 0

/-- Whether the low bits are zero. -/
def isZeroAt (w : Width) (r : UInt64) : Bool :=
  w.truncate r = 0

/-- Whether the sign bit of the width is set. -/
def isNegativeAt (w : Width) (r : UInt64) : Bool :=
  r &&& w.signBit ≠ 0

/-- Whether bit 3 was carried out of, given operands and result of a sum or difference. -/
def nibbleCarry (a b r : UInt64) : Bool :=
  (a ^^^ b ^^^ r) &&& 0x10 ≠ 0

/-- Whether `a + b + c` does not fit in the width. -/
def carryOfAdd (w : Width) (a b : UInt64) (c : Bool) : Bool :=
  w.mask.toNat < (w.truncate a).toNat + (w.truncate b).toNat + c.toNat

/-- Whether `b + c` is greater than `a`. -/
def borrowOfSub (w : Width) (a b : UInt64) (c : Bool) : Bool :=
  (w.truncate a).toNat < (w.truncate b).toNat + c.toNat

/-- Whether a sum has a sign that neither operand has. -/
def overflowOfAdd (w : Width) (a b r : UInt64) : Bool :=
  (a ^^^ r) &&& (b ^^^ r) &&& w.signBit ≠ 0

/-- Whether the operands of a difference have different signs and the result has that of the second. -/
def overflowOfSub (w : Width) (a b r : UInt64) : Bool :=
  (a ^^^ b) &&& (a ^^^ r) &&& w.signBit ≠ 0

/-- A carry as a word. -/
def carryWord (c : Bool) : UInt64 :=
  bif c then 1 else 0

namespace Flags

/-- Sets the zero, sign and parity flags after a result. -/
def ofResult (f : Flags) (w : Width) (r : UInt64) : Flags :=
  { f with zero := isZeroAt w r, sign := isNegativeAt w r, parity := evenParity r }

/-- Sets the carry and overflow flags. -/
def withCarryOverflow (f : Flags) (carry overflow : Bool) : Flags :=
  { f with carry := carry, overflow := overflow }

end Flags

/-- Sum with a carry coming in. -/
def addFlags (f : Flags) (w : Width) (a b : UInt64) (c : Bool) : UInt64 × Flags :=
  let x := w.truncate a
  let y := w.truncate b
  let r := w.truncate (x + y + carryWord c)
  (r, { (f.withCarryOverflow (carryOfAdd w x y c) (overflowOfAdd w x y r)).ofResult w r with
    adjust := nibbleCarry x y r })

/-- Difference with a borrow coming in. -/
def subFlags (f : Flags) (w : Width) (a b : UInt64) (c : Bool) : UInt64 × Flags :=
  let x := w.truncate a
  let y := w.truncate b
  let r := w.truncate (x - y - carryWord c)
  (r, { (f.withCarryOverflow (borrowOfSub w x y c) (overflowOfSub w x y r)).ofResult w r with
    adjust := nibbleCarry x y r })

/-- The flags after a bitwise operation: no carry and no overflow. -/
def logicFlags (f : Flags) (w : Width) (r : UInt64) : UInt64 × Flags :=
  let r := w.truncate r
  (r, (f.withCarryOverflow false false).ofResult w r)

/-- Sum with one, which keeps the carry flag. -/
def incFlags (f : Flags) (w : Width) (a : UInt64) : UInt64 × Flags :=
  let (r, g) := addFlags f w a 1 false
  (r, { g with carry := f.carry })

/-- Difference with one, which keeps the carry flag. -/
def decFlags (f : Flags) (w : Width) (a : UInt64) : UInt64 × Flags :=
  let (r, g) := subFlags f w a 1 false
  (r, { g with carry := f.carry })

/-- Difference of zero and a number. -/
def negFlags (f : Flags) (w : Width) (a : UInt64) : UInt64 × Flags :=
  subFlags f w 0 a false

/-- Two-operand arithmetic. -/
def ArithOp.apply (op : ArithOp) (f : Flags) (w : Width) (a b : UInt64) : UInt64 × Flags :=
  match op with
  | add => addFlags f w a b false
  | adc => addFlags f w a b f.carry
  | sub => subFlags f w a b false
  | sbb => subFlags f w a b f.carry
  | and => logicFlags f w (a &&& b)
  | or => logicFlags f w (a ||| b)
  | xor => logicFlags f w (a ^^^ b)

/-- The part of a shift count that counts: five bits, or six for 64-bit operands. -/
def maskedCount (w : Width) (n : Nat) : Nat :=
  n % (if w = .w64 then 64 else 32)

/-- Shift or rotation by `n`, which is not zero. The adjust flag is kept, and a rotation keeps the flags of
the result. -/
def shiftFlags (op : ShiftOp) (f : Flags) (w : Width) (v : UInt64) (n : Nat) : UInt64 × Flags :=
  let a := w.truncate v
  match op with
  | .shl =>
    let wide := a.toNat <<< n
    let r := w.truncate (UInt64.ofNat wide)
    let carry := wide.testBit w.bits
    (r, (f.withCarryOverflow carry (isNegativeAt w r != carry)).ofResult w r)
  | .shr =>
    let r := UInt64.ofNat (a.toNat >>> n)
    (r, (f.withCarryOverflow (a.toNat.testBit (n - 1)) (isNegativeAt w a)).ofResult w r)
  | .sar =>
    let r := w.truncate (UInt64.ofInt (w.toInt a >>> n))
    (r, (f.withCarryOverflow ((w.toInt a >>> (n - 1)) % 2 = 1) false).ofResult w r)
  | .rol =>
    let k := n % w.bits
    let r := w.truncate (UInt64.ofNat ((a.toNat <<< k) ||| (a.toNat >>> (w.bits - k))))
    let carry := r &&& 1 != 0
    (r, f.withCarryOverflow carry (isNegativeAt w r != carry))
  | .ror =>
    let k := n % w.bits
    let r := w.truncate (UInt64.ofNat ((a.toNat >>> k) ||| (a.toNat <<< (w.bits - k))))
    let second := r &&& (w.signBit >>> 1) != 0
    (r, f.withCarryOverflow (isNegativeAt w r) (isNegativeAt w r != second))

/-- A product: its low and high half, and whether the low half does not hold all of it. -/
structure Product where
  low : UInt64
  high : UInt64
  overflow : Bool
deriving DecidableEq, Inhabited

/-- Product of unsigned numbers. -/
def mulWide (w : Width) (a b : UInt64) : Product :=
  let full := w.toNat a * w.toNat b
  let high := full >>> w.bits
  ⟨w.truncate (UInt64.ofNat full), w.truncate (UInt64.ofNat high), high ≠ 0⟩

/-- Product of signed numbers. -/
def imulWide (w : Width) (a b : UInt64) : Product :=
  let full := w.toInt a * w.toInt b
  let low := w.truncate (UInt64.ofInt full)
  ⟨low, w.truncate (UInt64.ofInt (full >>> w.bits)), w.toInt low ≠ full⟩

/-- Quotient and remainder of the unsigned number with the halves `high` and `low` by `d`. There are none
if `d` is zero or the quotient does not fit. -/
def divWide? (w : Width) (high low d : UInt64) : Option (UInt64 × UInt64) :=
  let dividend := w.toNat high * w.modulus + w.toNat low
  let divisor := w.toNat d
  if divisor = 0 ∨ w.modulus ≤ dividend / divisor then none
  else some (UInt64.ofNat (dividend / divisor), UInt64.ofNat (dividend % divisor))

/-- Quotient, rounded toward zero, and remainder of the signed number with the halves `high` and `low` by
`d`. There are none if `d` is zero or the quotient does not fit. -/
def idivWide? (w : Width) (high low d : UInt64) : Option (UInt64 × UInt64) :=
  let dividend := w.toInt high * w.modulus + w.toNat low
  let divisor := w.toInt d
  let quotient := dividend.tdiv divisor
  if divisor = 0 ∨ !w.fits quotient then none
  else some (w.truncate (UInt64.ofInt quotient), w.truncate (UInt64.ofInt (dividend.tmod divisor)))

end Amd64
