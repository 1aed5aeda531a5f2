import Amd64.Machine.Observation
import Amd64.Proofs.Machine.Equivalence

namespace Amd64

/-!
# Watching accesses changes nothing

A memory that is watched passes every access on.  Runs of bytes are transferred as a whole, as the memory
itself does it.

* `Watched.alike_forward`  — an access that is passed on and kept ends as it does in the memory;
* `Watched.congruence`     — so execution cannot tell a watched memory from the memory;
* `watching_related`       — a batch under observation is the batch.
-/

namespace Watched

/-- The memory that is watched is this one. -/
def Watches {mode : BulkMode} (w : Watched mode) (m : Memory) : Prop :=
  w.memory = m

/-- An access is made to the memory, and what it stands for is kept if it succeeds. -/
theorem outcome_forward {mode : BulkMode} {α : Type} (act : MemoryM α) (event : α → List MemoryEvent)
    (w : Watched mode) :
    outcome (forward act event) w =
      match outcome act w.memory with
      | (.ok v, m) => (.ok v, ⟨m, w.events ++ (event v).toArray⟩)
      | (.error e, m) => (.error e, ⟨m, w.events⟩) := rfl

/-- What is kept of an access does not change how it ends. -/
theorem alike_forward {mode : BulkMode} {α : Type} (act : MemoryM α) (event : α → List MemoryEvent) :
    Alike (Watches : Watched mode → Memory → Prop) (forward act event) act := by
  rintro ⟨m, events⟩ _ rfl
  rw [outcome_forward]
  rcases outcome act m with ⟨e | v, m'⟩
  · exact ⟨rfl, rfl⟩
  · exact ⟨rfl, rfl⟩

/-- **Watched memories.** Every access ends as it does in the memory. -/
theorem congruence : Bus.Congruence (Watches : Watched .whole → Memory → Prop) where
  readWord w a := alike_forward (Bus.readWord w a) _
  readXmm a := alike_forward (Bus.readXmm a) _
  writeWord w a v := alike_forward (Bus.writeWord w a v) _
  writeXmm a v := alike_forward (Bus.writeXmm a v) _
  fetch a n := alike_forward (Bus.fetch a n) _
  readBytes a n := alike_forward (Bus.readBytes a n) _
  writeBytes a bs := alike_forward (Bus.writeBytes a bs) _

end Watched

/-- A batch under observation ends as the batch does on an equivalent processor and the same memory. -/
theorem watching_related (table : IntrinsicTable) (n : Nat) {m m' : Machine Memory}
    (h : Machine.Related Cpu.Equivalent (· = ·) m m') :
    ((watching .whole (runBatch table n)).run m).1.1 = ((runBatch table n).run m').1 ∧
      Machine.Related Cpu.Equivalent (· = ·) ((watching .whole (runBatch table n)).run m).2
        ((runBatch table n).run m').2 := by
  have hbus : Machine.Related Cpu.Equivalent Watched.Watches
      (⟨m.cpu, ⟨m.bus, #[]⟩⟩ : Machine (Watched .whole)) m' := h
  have hrun := runBatch_related ⟨Cpu.congruence_equivalent, Watched.congruence⟩ Cpu.keeps_setRip table n
    hbus
  obtain ⟨cpu, memory⟩ := m
  exact hrun

end Amd64
