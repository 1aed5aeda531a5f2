import Amd64.Semantics.Exec
import Amd64.Vector.Float
import Amd64.Vector.Lanes

namespace Amd64

/-!
# Vector instructions in the legacy encoding

Writes keep bits 128 to 511 of the destination. Scalar numbers are given by their bits, in the low half of a
word at single precision, and go through the number that a vector register keeps beside its stored bits.
-/

namespace Precision

/-- Width of a number. -/
def width : Precision → Width
  | single => .w32
  | double => .w64

end Precision

/-- Arithmetic on numbers of a precision. -/
def FloatOp.apply (op : FloatOp) (p : Precision) (a b : UInt64) : UInt64 :=
  match p with
  | .single => (Float32Bits.apply op a.toUInt32 b.toUInt32).toUInt64
  | .double => Float64Bits.apply op a b

/-- The flags of a comparison of two numbers. -/
def Flags.ofOrder (f : Flags) (order : Option Ordering) : Flags :=
  let g := { f with overflow := false, sign := false, adjust := false }
  match order with
  | none => { g with zero := true, parity := true, carry := true }
  | some .gt => { g with zero := false, parity := false, carry := false }
  | some .lt => { g with zero := false, parity := false, carry := true }
  | some .eq => { g with zero := true, parity := false, carry := false }

namespace VectorReg

/-- The number of a precision in the lowest bits. -/
def scalar (p : Precision) (r : VectorReg) : UInt64 × VectorReg :=
  match p with
  | .single => let (x, r) := r.single; (x.toUInt64, r)
  | .double => r.double

/-- Replaces the number of a precision in the lowest bits. -/
def setScalar (p : Precision) (r : VectorReg) (x : UInt64) : VectorReg :=
  match p with
  | .single => r.setSingle x.toUInt32
  | .double => r.setDouble x

end VectorReg

namespace Exec

variable {σ : Type} [Bus σ]

/-- A number in a vector register or in memory. -/
def readScalar (p : Precision) (src : Location) : Exec σ UInt64 := do
  match src with
  | .vec v => viewVec v.index (VectorReg.scalar p)
  | .mem m => access (Bus.readWord p.width (m.effective (← cpu)))
  | _ => invalidOpcode

/-- The number of a vector register operand. -/
def vecIndex (l : Location) : Exec σ (Fin 16) :=
  match l with
  | .vec v => pure v.index
  | _ => invalidOpcode

/-- Replaces the destination by a function of both operands. -/
def binary (f : BitVec 128 → BitVec 128 → BitVec 128) (dst src : Location) : Exec σ Unit := do
  let b ← src.readXmm
  let a ← dst.readXmm
  dst.writeXmm (f a b)

/-- Moves a floating-point number. Between registers the upper bits of the destination are kept; a load
zeroes the rest of the low 128 bits. -/
def moveScalar (p : Precision) (dst src : Location) : Exec σ Unit := do
  match dst, src with
  | .vec d, .vec s =>
    let v ← viewVec s.index (VectorReg.scalar p)
    modifyVec d.index fun r => r.setScalar p v
  | .vec d, .mem m =>
    let v ← access (Bus.readWord p.width (m.effective (← cpu)))
    modifyVec d.index fun r => r.setXmm (v.toBitVec.setWidth 128)
  | .mem m, .vec s =>
    let v ← viewVec s.index (VectorReg.scalar p)
    access (Bus.writeWord p.width (m.effective (← cpu)) v)
  | _, _ => invalidOpcode

/-- The low 64 bits of a vector register. -/
def lowWord (i : Fin 16) : Exec σ UInt64 := do
  let v ← viewVec i VectorReg.xmm
  return UInt64.ofBitVec (v.setWidth 64)

/-- Moves an integer of a width. A write to a vector register zeroes the rest of the low 128 bits. -/
def moveInteger (w : Width) (dst src : Location) : Exec σ Unit := do
  match dst, src with
  | .vec d, .vec s =>
    let v ← lowWord s.index
    modifyVec d.index fun r => r.setXmm ((w.truncate v).toBitVec.setWidth 128)
  | .vec d, other =>
    let v ← other.read w
    modifyVec d.index fun r => r.setXmm (v.toBitVec.setWidth 128)
  | other, .vec s =>
    let v ← lowWord s.index
    other.write w v
  | _, _ => invalidOpcode

/-- Shifts lanes by an immediate count or by the low 32 bits of a vector. -/
def shiftLanes (op : LaneShift) (w : Width) (dst src : Location) : Exec σ Unit := do
  let count ← match src with
    | .imm n => pure n.toNat
    | other => do
      let v ← other.readXmm
      pure (v.setWidth 32).toNat
  let v ← dst.readXmm
  dst.writeXmm (op.apply w count v)

/-- Shifts 128 bits by an immediate count of bytes. -/
def shiftBytes (op : LaneShift) (dst src : Location) : Exec σ Unit := do
  match src with
  | .imm n =>
    let v ← dst.readXmm
    dst.writeXmm (op.applyBytes n.toNat v)
  | _ => invalidOpcode

/-- Floating-point arithmetic. -/
def float (op : FloatOp) (p : Precision) (dst src : Location) : Exec σ Unit := do
  let b ← readScalar p src
  let d ← vecIndex dst
  let a ← viewVec d (VectorReg.scalar p)
  modifyVec d fun r => r.setScalar p (op.apply p a b)

/-- Comparison of floating-point numbers. -/
def compareFloats (p : Precision) (dst src : Location) : Exec σ Unit := do
  let b ← readScalar p src
  let d ← vecIndex dst
  let a ← viewVec d (VectorReg.scalar p)
  setFlags ((← cpu).flags.ofOrder (floatOrder? p a b))

/-- Conversion from an integer. -/
def ofInteger (p : Precision) (w : Width) (dst src : Location) : Exec σ Unit := do
  let v := w.signExtend (← src.read w)
  let d ← vecIndex dst
  let x := match p with
    | .single => (Float32Bits.ofInteger v).toUInt64
    | .double => Float64Bits.ofInteger v
  modifyVec d fun r => r.setScalar p x

/-- Conversion to an integer. -/
def toInteger (p : Precision) (w : Width) (dst src : Location) : Exec σ Unit := do
  let v ← readScalar p src
  let x := match p with
    | .single => widenBits v.toUInt32
    | .double => v
  dst.write w (integerOfBits w x)

/-- Conversion from single to double precision. -/
def widen (dst src : Location) : Exec σ Unit := do
  let v ← readScalar .single src
  let d ← vecIndex dst
  modifyVec d fun r => r.setDouble (widenBits v.toUInt32)

/-- Conversion from double to single precision. -/
def narrow (dst src : Location) : Exec σ Unit := do
  let v ← readScalar .double src
  let d ← vecIndex dst
  modifyVec d fun r => r.setSingle (narrowBits v)

/-- A vector operation in the legacy encoding. -/
def sse (op : SseOp) (dst src : Location) : Exec σ Unit := do
  match op with
  | .movePacked _ => dst.writeXmm (← src.readXmm)
  | .moveScalar p => moveScalar p dst src
  | .movd => moveInteger .w32 dst src
  | .movq => moveInteger .w64 dst src
  | .logic logicOp => binary logicOp.apply dst src
  | .lanes laneOp w => binary (laneOp.apply w) dst src
  | .moveMask => dst.write .w64 (byteSigns (← src.readXmm))
  | .shiftLanes shiftOp w => shiftLanes shiftOp w dst src
  | .shiftBytes shiftOp => shiftBytes shiftOp dst src
  | .float floatOp p => float floatOp p dst src
  | .compare _ p => compareFloats p dst src
  | .ofInteger p w => ofInteger p w dst src
  | .toInteger p w => toInteger p w dst src
  | .widen => widen dst src
  | .narrow => narrow dst src

end Exec

end Amd64
