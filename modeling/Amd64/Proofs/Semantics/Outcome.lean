import Amd64.Proofs.Outcome
import Amd64.Semantics.Exec

namespace Amd64

/-!
# Outcomes of the steps of execution

* `Exec.outcome_cpu`, `Exec.outcome_modifyCpu`, `Exec.outcome_viewVec` — the registers;
* `Exec.outcome_access` — the bus: only here something can fail;
* `Exec.outcome_access_ask`, `Exec.outcome_access_bind` — questions to memory, and accesses in sequence.
-/

namespace Exec

variable {σ α : Type} (m : Machine σ)

@[simp] theorem outcome_cpu : outcome cpu m = (.ok m.cpu, m) := rfl

@[simp] theorem outcome_modifyCpu (f : Cpu → Cpu) :
    outcome (modifyCpu f) m = (.ok (), ⟨f m.cpu, m.bus⟩) := rfl

/-- To look at a vector register, which may change how it is kept. -/
@[simp] theorem outcome_viewVec (i : Fin 16) (view : VectorReg → α × VectorReg) :
    outcome (viewVec i view) m =
      (.ok (view (m.cpu.vec i)).1, ⟨m.cpu.setVec i (view (m.cpu.vec i)).2, m.bus⟩) := rfl

/-- An access changes memory only, and its error becomes a fault. -/
theorem outcome_access (act : BusM σ α) :
    outcome (access act) m =
      match outcome act m.bus with
      | (.ok v, bus) => (.ok v, ⟨m.cpu, bus⟩)
      | (.error e, bus) => (.error (.memory e), ⟨m.cpu, bus⟩) := rfl

/-- What is asked of memory does not change the machine. -/
theorem outcome_access_ask (f : Memory → Except MemoryError α) (m : Machine Memory) :
    outcome (access (Memory.ask f)) m = ((f m.bus).mapError Fault.memory, m) := by
  have hask : outcome (Memory.ask f) m.bus = (f m.bus, m.bus) := rfl
  rw [outcome_access, hask]
  cases f m.bus <;> rfl

/-- Accesses one after the other are accesses of a sequence. -/
theorem outcome_access_bind {β : Type} (x : BusM σ α) (f : α → BusM σ β) :
    outcome (access (x >>= f)) m = outcome (access x >>= fun v => access (f v)) m := by
  simp only [outcome_access, outcome_bind]
  rcases outcome x m.bus with ⟨_ | _, _⟩ <;> rfl

end Exec

end Amd64
