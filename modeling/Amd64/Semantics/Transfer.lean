import Amd64.Semantics.Exec

namespace Amd64

/-!
# Moves and the stack

Moves, exchanges, sign extensions, conditional moves, and transfers between operands and the stack. The
stack grows downwards, and its pointer moves only after the access succeeded.
-/

namespace Exec

variable {σ : Type} [Bus σ]

/-- Copies an operand. -/
def mov (dst src : Location) (w : Width) : Exec σ Unit := do
  dst.write w (← src.read w)

/-- Copies an operand with zeros above it. -/
def movzx (dst : Reg) (src : Location) (w : Width) : Exec σ Unit := do
  writeReg dst (← src.read w)

/-- Copies an operand with copies of its sign above it. -/
def movsx (dst : Reg) (src : Location) (w : Width) : Exec σ Unit := do
  let v ← src.read w
  writeReg dst (dst.width.truncate (w.signExtend v))

/-- Computes an address. -/
def lea (dst : Reg) (src : Location) : Exec σ Unit := do
  match src with
  | .mem m => writeReg dst (m.offset (← cpu))
  | _ => invalidOpcode

/-- Exchanges two operands. Memory is written first, so that a fault leaves the registers as they were. -/
def xchg (a b : Location) (w : Width) : Exec σ Unit := do
  let x ← a.read w
  let y ← b.read w
  if b.isMem then
    b.write w x
    a.write w y
  else
    a.write w y
    b.write w x

/-- Puts a value on the stack. -/
def pushValue (w : Width) (v : UInt64) : Exec σ Unit := do
  let top := (← cpu).gpr .rsp - UInt64.ofNat w.bytes
  access (Bus.writeWord w top v)
  setGpr .rsp top

/-- Takes a value off the stack. -/
def popValue (w : Width) : Exec σ UInt64 := do
  let top := (← cpu).gpr .rsp
  let v ← access (Bus.readWord w top)
  setGpr .rsp (top + UInt64.ofNat w.bytes)
  return v

/-- Puts an operand on the stack. -/
def push (src : Location) (w : Width) : Exec σ Unit := do
  pushValue w (← src.read w)

/-- Takes an operand off the stack. An address in the operand sees the moved stack pointer, and a fault in
writing it moves the pointer back. -/
def pop (dst : Location) (w : Width) : Exec σ Unit := do
  let top := (← cpu).gpr .rsp
  let v ← popValue w
  try dst.write w v
  catch fault =>
    setGpr .rsp top
    throw fault

/-- Half of a width. -/
def half : Width → Width
  | .w64 => .w32
  | .w32 => .w16
  | _ => .w8

/-- Extends the lower half of the accumulator with its sign. -/
def extendAcc (w : Width) : Exec σ Unit := do
  let v := (← cpu).readReg (.low .rax (half w))
  writeReg (.low .rax w) ((half w).signExtend v)

/-- Fills the data register with the sign of the accumulator. -/
def fillData (w : Width) : Exec σ Unit := do
  let v := (← cpu).readReg (.low .rax w)
  writeReg (.low .rdx w) (if v &&& w.signBit = 0 then 0 else -1)

/-- One if a condition is true, else zero. -/
def setcc (cond : Condition) (dst : Location) : Exec σ Unit := do
  dst.write .w8 (if (← cpu).holds cond then 1 else 0)

/-- Copies an operand if a condition is true. The operand is read in any case, and the destination written
too, so that a 32-bit destination loses its upper half. -/
def cmovcc (cond : Condition) (dst : Reg) (src : Location) (w : Width) : Exec σ Unit := do
  let v ← src.read w
  let s ← cpu
  writeReg dst (if s.holds cond then v else s.readReg dst)

end Exec

end Amd64
