import Amd64.Proofs.Instruction.WellFormed
import Amd64.Proofs.Semantics.Outcome

namespace Amd64

/-!
# Faults of computations

* `Exec.FaultsIn`       — every fault that a computation may end with has a property;
* `Exec.FaultsIn.bind`, `Exec.FaultsIn.tryCatch`, … — computations that are put together;
* `Operand.Source.faultsIn_read`, `Operand.Target.faultsIn_write`, … — accesses to an operand that fits
  cause no faults but those of memory.
-/

/-- A fault that memory reports. -/
def Fault.IsMemory : Fault → Prop
  | .memory _ => True
  | _ => False

namespace Exec

variable {σ α β : Type} {P Q : Fault → Prop}

/-- Whatever machine `x` starts on, a fault that it ends with has `P`. -/
def FaultsIn (P : Fault → Prop) (x : Exec σ α) : Prop :=
  ∀ m f, (outcome x m).1 = .error f → P f

/-- Fewer faults have a stronger property. -/
theorem FaultsIn.mono {x : Exec σ α} (hx : x.FaultsIn P) (h : ∀ f, P f → Q f) : x.FaultsIn Q :=
  fun m f hf => h f (hx m f hf)

/-! ### Computations that are put together -/

theorem faultsIn_pure (v : α) : (pure v : Exec σ α).FaultsIn P :=
  fun _ _ hf => nomatch hf

theorem faultsIn_throw {f : Fault} (h : P f) : (throw f : Exec σ α).FaultsIn P :=
  fun _ _ hf => Except.error.inj hf ▸ h

/-- **Sequences.** A fault is one of the first part or one of the second. -/
theorem FaultsIn.bind {x : Exec σ α} {f : α → Exec σ β} (hx : x.FaultsIn P)
    (hf : ∀ v, (f v).FaultsIn P) : (x >>= f).FaultsIn P := by
  intro m e he
  rw [outcome_bind] at he
  split at he
  · next v m' _ => exact hf v m' e he
  · next e' m' hrun =>
    obtain rfl := Except.error.inj he
    exact hx m e' (congrArg Prod.fst hrun)

/-- A handler is given faults of the computation only. -/
theorem FaultsIn.tryCatch {x : Exec σ α} {handle : Fault → Exec σ α} (hx : x.FaultsIn P)
    (hhandle : ∀ f, P f → (handle f).FaultsIn P) :
    FaultsIn P (MonadExcept.tryCatch x handle) := by
  intro m e he
  rw [outcome_tryCatch] at he
  split at he
  · exact nomatch he
  · next e' m' hrun => exact hhandle e' (hx m e' (congrArg Prod.fst hrun)) m' e he

theorem FaultsIn.ite {c : Prop} [Decidable c] {x y : Exec σ α} (hx : x.FaultsIn P)
    (hy : y.FaultsIn P) : (if c then x else y).FaultsIn P := by
  split
  · exact hx
  · exact hy

theorem faultsIn_cpu : (cpu : Exec σ Cpu).FaultsIn P :=
  fun _ _ hf => nomatch hf

theorem faultsIn_modifyCpu (f : Cpu → Cpu) : (modifyCpu f : Exec σ Unit).FaultsIn P :=
  fun _ _ hf => nomatch hf

/-- A vector register has every view. -/
theorem faultsIn_viewVec (i : Fin 16) (view : VectorReg → α × VectorReg) :
    (viewVec i view : Exec σ α).FaultsIn P :=
  faultsIn_cpu.bind fun _ => (faultsIn_modifyCpu _).bind fun _ => faultsIn_pure _

/-- An access fails with a fault of memory only. -/
theorem faultsIn_access (act : BusM σ α) : (access act).FaultsIn Fault.IsMemory := by
  intro m f hf
  rw [outcome_access] at hf
  split at hf
  · exact nomatch hf
  · obtain rfl := Except.error.inj hf
    trivial

/-- An access at an address that depends on the registers. -/
theorem faultsIn_cpu_access (act : Cpu → BusM σ α) :
    (do access (act (← cpu)) : Exec σ α).FaultsIn Fault.IsMemory :=
  faultsIn_cpu.bind fun _ => faultsIn_access _

theorem faultsIn_invalidOpcode (h : ∀ rip, P (.invalidOpcode rip)) :
    (invalidOpcode : Exec σ α).FaultsIn P :=
  faultsIn_cpu.bind fun _ => faultsIn_throw (h _)

end Exec

/-! ### Operands -/

namespace Operand

open Exec

variable {σ : Type} [Bus σ] {o : Operand} {w : Width}

/-- An operand that can be read is read, unless memory faults. -/
theorem Source.faultsIn_read (h : o.Source w) (next : UInt64) :
    ((o.bind next).read w : Exec σ UInt64).FaultsIn Fault.IsMemory := by
  cases o with
  | reg r => exact faultsIn_cpu.bind fun _ => faultsIn_pure _
  | vec v => exact absurd h id
  | mem a => exact faultsIn_cpu_access _
  | imm v => exact faultsIn_pure (w.truncate v)

/-- An operand that can be written is written, unless memory faults. -/
theorem Target.faultsIn_write (h : o.Target w) (next v : UInt64) :
    ((o.bind next).write w v : Exec σ Unit).FaultsIn Fault.IsMemory := by
  cases o with
  | reg r => exact faultsIn_modifyCpu _
  | vec v => exact absurd h id
  | mem a => exact faultsIn_cpu_access _
  | imm v => exact absurd h id

/-- A vector operand is read, unless memory faults. -/
theorem Vector.faultsIn_readXmm (h : o.Vector) (next : UInt64) :
    ((o.bind next).readXmm : Exec σ _).FaultsIn Fault.IsMemory := by
  cases o with
  | reg r => exact absurd h id
  | vec v => exact faultsIn_viewVec v.index VectorReg.xmm
  | mem a => exact faultsIn_cpu_access _
  | imm v => exact absurd h id

/-- A vector operand is written, unless memory faults. -/
theorem Vector.faultsIn_writeXmm (h : o.Vector) (next : UInt64) (x : BitVec 128) :
    ((o.bind next).writeXmm x : Exec σ Unit).FaultsIn Fault.IsMemory := by
  cases o with
  | reg r => exact absurd h id
  | vec v => exact faultsIn_modifyCpu _
  | mem a => exact faultsIn_cpu_access _
  | imm v => exact absurd h id

end Operand

end Amd64
