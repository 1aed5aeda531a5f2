import Amd64.Instruction.Opcode

namespace Amd64

/-!
# Lanes of vectors

A vector of 128 bits is a row of lanes of one width. Operations on lanes treat each lane on its own.

* `mapLanes`          — a vector made lane by lane from two vectors;
* `LaneOp.apply`      — sums, differences and comparisons of lanes;
* `LaneShift.apply`   — shifts of all lanes by one count;
* `LaneShift.applyBytes` — shifts of the whole vector by bytes;
* `byteSigns`         — the sign bits of the bytes.
-/

/-- Lane `i` of a vector. -/
def lane (w : Width) (v : BitVec 128) (i : Nat) : UInt64 :=
  w.truncate (UInt64.ofNat (v >>> (i * w.bits)).toNat)

/-- The vector of the `n` lowest lanes `f 0`, `f 1`, … -/
def lanesOf (w : Width) (f : Nat → UInt64) : Nat → BitVec 128
  | 0 => 0
  | n + 1 => lanesOf w f n ||| (BitVec.ofNat 128 (w.truncate (f n)).toNat <<< (n * w.bits))

/-- The vector whose lanes are made from the lanes of two vectors. -/
def mapLanes (w : Width) (f : UInt64 → UInt64 → UInt64) (a b : BitVec 128) : BitVec 128 :=
  lanesOf w (fun i => f (lane w a i) (lane w b i)) (128 / w.bits)

/-- Sums, differences and comparisons of lanes. Equal lanes compare as all ones. -/
def LaneOp.apply (op : LaneOp) (w : Width) (a b : BitVec 128) : BitVec 128 :=
  match op with
  | add => mapLanes w (· + ·) a b
  | sub => mapLanes w (· - ·) a b
  | cmpeq => mapLanes w (fun x y => if x = y then -1 else 0) a b

/-- One lane shifted by `n`. A shift by the width or more leaves zeros, or copies of the sign. -/
def LaneShift.shift (op : LaneShift) (w : Width) (n : Nat) (x : UInt64) : UInt64 :=
  match op with
  | left => if n < w.bits then UInt64.ofNat (x.toNat <<< n) else 0
  | right => if n < w.bits then UInt64.ofNat (x.toNat >>> n) else 0
  | arithmetic => UInt64.ofInt (w.toInt x >>> min n (w.bits - 1))

/-- All lanes shifted by `n`. -/
def LaneShift.apply (op : LaneShift) (w : Width) (n : Nat) (v : BitVec 128) : BitVec 128 :=
  mapLanes w (fun x _ => op.shift w n x) v 0

/-- The whole vector shifted by `n` bytes. -/
def LaneShift.applyBytes (op : LaneShift) (n : Nat) (v : BitVec 128) : BitVec 128 :=
  if 15 < n then 0
  else
    match op with
    | left => v <<< (n * 8)
    | _ => v >>> (n * 8)

/-- The bitwise operations. -/
def LogicOp.apply (op : LogicOp) (a b : BitVec 128) : BitVec 128 :=
  match op with
  | pxor | xorps | xorpd => a ^^^ b
  | pand | andps | andpd => a &&& b
  | por | orps | orpd => a ||| b
  | pandn => ~~~a &&& b

/-- The number whose bit `i` is the top bit of byte `i`. -/
def byteSigns (v : BitVec 128) : UInt64 :=
  UInt64.ofNat ((List.range 16).foldl (fun m i => m + (v.getLsbD (8 * i + 7)).toNat <<< i) 0)

/-- The three-operand operations on 128 bits. -/
def VexOp.apply (op : VexOp) (a b : BitVec 128) : BitVec 128 :=
  match op with
  | vpxor => a ^^^ b
  | vpaddq => LaneOp.add.apply .w64 a b

end Amd64
