import Amd64.Instruction.Opcode

namespace Amd64

/-!
# Floating-point numbers by their bits

Numbers are given by their bits in the binary interchange formats. Arithmetic that has no NaN in it and
yields none is that of the formats. A NaN among the operands is passed on with its quiet bit set, the
first operand's before the second's, and an operation without a NaN operand that has no result yields the
default NaN, which is negative and quiet.

* `Float32Bits.apply`, `Float64Bits.apply` — arithmetic;
* `floatOrder?`            — how two numbers compare, if neither is a NaN;
* `widenBits`, `narrowBits` — conversions between the precisions;
* `integerOfBits`          — conversion to a signed integer.
-/

/-! ### Single precision -/

namespace Float32Bits

/-- Whether the number is a NaN. -/
def isNaN (x : UInt32) : Bool :=
  0x7f800000 < x &&& 0x7fffffff

/-- A NaN with its quiet bit set. -/
def quiet (x : UInt32) : UInt32 :=
  x ||| 0x00400000

/-- The result `r` of an operation on `a` and `b`, or the NaN that takes its place. -/
def propagate (a b r : UInt32) : UInt32 :=
  if isNaN a then quiet a
  else if isNaN b then quiet b
  else if isNaN r then 0xffc00000
  else r

/-- Arithmetic on `a` and `b`. The square root is that of `b`. -/
def apply (op : FloatOp) (a b : UInt32) : UInt32 :=
  let x := Float32.ofBits a
  let y := Float32.ofBits b
  match op with
  | .add => propagate a b (x + y).toBits
  | .sub => propagate a b (x - y).toBits
  | .mul => propagate a b (x * y).toBits
  | .div => propagate a b (x / y).toBits
  | .sqrt => propagate b b y.sqrt.toBits

/-- The number nearest to a signed 64-bit integer. -/
def ofInteger (n : UInt64) : UInt32 :=
  n.toInt64.toFloat32.toBits

end Float32Bits

/-! ### Double precision -/

namespace Float64Bits

/-- Whether the number is a NaN. -/
def isNaN (x : UInt64) : Bool :=
  0x7ff0000000000000 < x &&& 0x7fffffffffffffff

/-- A NaN with its quiet bit set. -/
def quiet (x : UInt64) : UInt64 :=
  x ||| 0x0008000000000000

/-- The result `r` of an operation on `a` and `b`, or the NaN that takes its place. -/
def propagate (a b r : UInt64) : UInt64 :=
  if isNaN a then quiet a
  else if isNaN b then quiet b
  else if isNaN r then 0xfff8000000000000
  else r

/-- Arithmetic on `a` and `b`. The square root is that of `b`. -/
def apply (op : FloatOp) (a b : UInt64) : UInt64 :=
  let x := Float.ofBits a
  let y := Float.ofBits b
  match op with
  | .add => propagate a b (x + y).toBits
  | .sub => propagate a b (x - y).toBits
  | .mul => propagate a b (x * y).toBits
  | .div => propagate a b (x / y).toBits
  | .sqrt => propagate b b y.sqrt.toBits

/-- The number nearest to a signed 64-bit integer. -/
def ofInteger (n : UInt64) : UInt64 :=
  n.toInt64.toFloat.toBits

/-- The number without its fraction, if it is finite. -/
def truncate? (x : UInt64) : Option Int :=
  let field := ((x >>> 52) &&& 0x7ff).toNat
  let fraction := (x &&& 0x000fffffffffffff).toNat
  if field = 0x7ff then none
  else
    let mantissa := if field = 0 then fraction else fraction + 0x10000000000000
    let magnitude := (mantissa <<< (field - 1075)) >>> (1075 - field)
    some (if x &&& 0x8000000000000000 = 0 then (magnitude : Int) else -(magnitude : Int))

end Float64Bits

/-! ### Comparison and conversion -/

/-- A number's place in the order of numbers: its magnitude with its sign. Both zeros have one place. -/
def signedMagnitude (signBit x : Nat) : Int :=
  if x < signBit then (x : Int) else -((x - signBit : Nat) : Int)

/-- How two numbers compare, if neither is a NaN. -/
def floatOrder? (p : Precision) (a b : UInt64) : Option Ordering :=
  match p with
  | .single =>
    if Float32Bits.isNaN a.toUInt32 || Float32Bits.isNaN b.toUInt32 then none
    else
      some (compare (signedMagnitude 0x80000000 a.toUInt32.toNat)
        (signedMagnitude 0x80000000 b.toUInt32.toNat))
  | .double =>
    if Float64Bits.isNaN a || Float64Bits.isNaN b then none
    else
      some (compare (signedMagnitude 0x8000000000000000 a.toNat)
        (signedMagnitude 0x8000000000000000 b.toNat))

/-- Single to double precision. A NaN keeps its sign and payload and becomes quiet. -/
def widenBits (x : UInt32) : UInt64 :=
  if Float32Bits.isNaN x then
    let sign := (x &&& 0x80000000).toUInt64 <<< 32
    let payload := (x &&& 0x003fffff).toUInt64 <<< 29
    sign ||| 0x7ff8000000000000 ||| payload
  else (Float32.ofBits x).toFloat.toBits

/-- Double to single precision, to the nearest number. A NaN keeps its sign and the top of its payload and
becomes quiet. -/
def narrowBits (x : UInt64) : UInt32 :=
  if Float64Bits.isNaN x then
    let sign := (x >>> 32).toUInt32 &&& 0x80000000
    let payload := (x >>> 29).toUInt32 &&& 0x003fffff
    sign ||| 0x7fc00000 ||| payload
  else (Float.ofBits x).toFloat32.toBits

/-- The signed integer of a width that a double-precision number has without its fraction. The least
integer stands for numbers that do not fit. -/
def integerOfBits (w : Width) (x : UInt64) : UInt64 :=
  match Float64Bits.truncate? x with
  | some n =>
    if w.fits n then w.truncate (UInt64.ofInt n) else w.signBit
  | none => w.signBit

end Amd64
