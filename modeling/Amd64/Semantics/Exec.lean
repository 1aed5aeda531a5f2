import Amd64.Machine.Binding
import Amd64.Machine.Bus
import Amd64.Machine.Fault

namespace Amd64

/-!
# Executing with faults

* `Machine`    — a processor and a bus;
* `Exec`       — computations that change a machine and may end with a fault. What was changed before the
  fault stays changed;
* `Location.read`, `Location.write`, … — the values of operands.
-/

/-- A processor together with the state of the bus to its memory. -/
structure Machine (σ : Type) where
  cpu : Cpu
  bus : σ

/-- Computations on a machine that may end with a fault. -/
abbrev Exec (σ : Type) := ExceptT Fault (StateM (Machine σ))

namespace Exec

variable {σ α : Type}

/-- The registers. -/
def cpu : Exec σ Cpu := do
  return (← get).cpu

/-- Changes the registers. -/
def modifyCpu (f : Cpu → Cpu) : Exec σ Unit :=
  modify fun | ⟨cpu, bus⟩ => ⟨f cpu, bus⟩

/-- Uses the bus. -/
def access (act : BusM σ α) : Exec σ α :=
  ExceptT.mk fun
    | ⟨cpu, bus⟩ =>
      match act.run.run bus with
      | (.ok v, bus) => (.ok v, ⟨cpu, bus⟩)
      | (.error e, bus) => (.error (.memory e), ⟨cpu, bus⟩)

/-- Ends with the fault of an undefined instruction. -/
def invalidOpcode : Exec σ α := do
  throw (.invalidOpcode (← cpu).rip)

/-- A view of a vector register. The register is left as the view leaves it. -/
def viewVec (i : Fin 16) (view : VectorReg → α × VectorReg) : Exec σ α := do
  let (value, r) := view ((← cpu).vec i)
  modifyCpu fun s => s.setVec i r
  return value

/-- Replaces a general-purpose register. -/
def setGpr (g : Gpr) (v : UInt64) : Exec σ Unit :=
  modifyCpu fun s => s.setGpr g v

/-- Replaces the bits of a view of a register. -/
def writeReg (r : Reg) (v : UInt64) : Exec σ Unit :=
  modifyCpu fun s => s.writeReg r v

/-- Replaces the flags. -/
def setFlags (f : Flags) : Exec σ Unit :=
  modifyCpu fun s => s.setFlags f

/-- Changes a vector register. -/
def modifyVec (i : Fin 16) (f : VectorReg → VectorReg) : Exec σ Unit :=
  modifyCpu fun s => s.modifyVec i f

end Exec

namespace Location

variable {σ : Type} [Bus σ]

/-- The value of an integer operand, zero-extended. A register has its own width. -/
def read (l : Location) (w : Width) : Exec σ UInt64 := do
  match l with
  | reg r => return (← Exec.cpu).readReg r
  | imm v => return w.truncate v
  | mem m => Exec.access (Bus.readWord w (m.effective (← Exec.cpu)))
  | vec _ => Exec.invalidOpcode

/-- Replaces an integer operand. -/
def write (l : Location) (w : Width) (v : UInt64) : Exec σ Unit := do
  match l with
  | reg r => Exec.writeReg r v
  | mem m => Exec.access (Bus.writeWord w (m.effective (← Exec.cpu)) v)
  | imm _ | vec _ => Exec.invalidOpcode

/-- The value of a 128-bit operand. -/
def readXmm (l : Location) : Exec σ (BitVec 128) := do
  match l with
  | vec v => Exec.viewVec v.index VectorReg.xmm
  | mem m => Exec.access (Bus.readXmm (m.effective (← Exec.cpu)))
  | reg _ | imm _ => Exec.invalidOpcode

/-- Replaces a 128-bit operand. A register keeps its upper bits. -/
def writeXmm (l : Location) (x : BitVec 128) : Exec σ Unit := do
  match l with
  | vec v => Exec.modifyVec v.index fun r => r.setXmm x
  | mem m => Exec.access (Bus.writeXmm (m.effective (← Exec.cpu)) x)
  | reg _ | imm _ => Exec.invalidOpcode

end Location

end Amd64
