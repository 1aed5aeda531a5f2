import Amd64.Semantics.Exec
import Amd64.Vector.Lanes

namespace Amd64

/-!
# Vector instructions in the VEX encoding

Operands have 128 or 256 bits. A write to a register zeroes all bits above the operand. In memory the two
halves of 256 bits are accessed one after the other.
-/

/-- The size of an operand that is a vector register. -/
def Operand.vecSize? : Operand → Option VecSize
  | .vec v => some v.size
  | _ => none

/-- A value of 128 or 256 bits as its halves. The upper half of 128 bits is zero. -/
structure WideValue where
  low : BitVec 128
  high : BitVec 128

namespace Exec

variable {σ : Type} [Bus σ]

/-- The value of an operand. -/
def readWide (l : Location) (size : VecSize) : Exec σ WideValue := do
  match l, size with
  | .vec v, .xmm => return ⟨← viewVec v.index VectorReg.xmm, 0⟩
  | .vec v, .ymm =>
    let x ← viewVec v.index VectorReg.ymm
    return ⟨x.extractLsb' 0 128, x.extractLsb' 128 128⟩
  | .mem m, .xmm => return ⟨← access (Bus.readXmm (m.effective (← cpu))), 0⟩
  | .mem m, .ymm =>
    let a := m.effective (← cpu)
    let low ← access (Bus.readXmm a)
    let high ← access (Bus.readXmm (a + 16))
    return ⟨low, high⟩
  | _, _ => invalidOpcode

/-- Replaces an operand. -/
def writeWide (l : Location) (size : VecSize) (x : WideValue) : Exec σ Unit := do
  match l, size with
  | .vec v, .xmm => modifyVec v.index fun _ => VectorReg.setXmmVex x.low
  | .vec v, .ymm => modifyVec v.index fun _ => VectorReg.setYmm (x.high ++ x.low)
  | .mem m, .xmm => access (Bus.writeXmm (m.effective (← cpu)) x.low)
  | .mem m, .ymm =>
    let a := m.effective (← cpu)
    access (Bus.writeXmm a x.low)
    access (Bus.writeXmm (a + 16) x.high)
  | _, _ => invalidOpcode

/-- Copies an operand whose size is that of the one that is a register. -/
def vexMove (size : Option VecSize) (dst src : Location) : Exec σ Unit := do
  match size with
  | none => invalidOpcode
  | some size => writeWide dst size (← readWide src size)

/-- An operation on two operands. -/
def vexBinary (op : VexOp) (size : VecSize) (dst lhs rhs : Location) : Exec σ Unit := do
  let a ← readWide lhs size
  let b ← readWide rhs size
  writeWide dst size ⟨op.apply a.low b.low, op.apply a.high b.high⟩

end Exec

end Amd64
