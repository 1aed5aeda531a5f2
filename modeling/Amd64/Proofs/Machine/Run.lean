import Amd64.Machine.Run
import Amd64.Proofs.Semantics.Outcome

namespace Amd64

/-!
# Batches of steps

* `Exec.outcome_retire` — an instruction is executed, then the instruction pointer moves, and
  `Exec.outcome_retire_next` if it goes on with the following instruction;
* `runFrom_succ`        — a batch takes one step and, if the step does not stop it, goes on;
* `runFrom_one_add`     — a batch is a batch of one step and, if that was completed, the rest;
* `executed_of_completed` — a batch is completed when it has taken all its steps;
* `step_of_lt_executed` — for each instruction that a batch executed, the batch up to it was completed and the
  step there succeeded.
-/

/-- To retire an instruction is to execute it and to set the instruction pointer. -/
theorem Exec.outcome_retire {σ : Type} [Bus σ] (i : Instruction) (b : Binding) (m : Machine σ) :
    outcome (retire i b) m =
      match outcome (i.execute b) m with
      | (.ok out, m') => (.ok out.exit, ⟨m'.cpu.setRip out.rip, m'.bus⟩)
      | (.error f, m') => (.error f, m') := by
  rw [retire, outcome_bind]
  rcases outcome (i.execute b) m with ⟨_ | _, _⟩ <;> rfl

/-- An instruction that goes on with the following one does its work and moves the instruction pointer there. -/
theorem Exec.outcome_retire_next {σ : Type} [Bus σ] {i : Instruction} {b : Binding} {x : Exec σ Unit}
    (hwork : i.execute b = do
      x
      return .next i.next) (m : Machine σ) :
    outcome (retire i b) m =
      match outcome x m with
      | (.ok _, m') => (.ok .proceed, ⟨m'.cpu.setRip i.next, m'.bus⟩)
      | (.error f, m') => (.error f, m') := by
  rw [outcome_retire, hwork, outcome_bind]
  rcases outcome x m with ⟨_ | _, _⟩ <;> rfl

/-- How a batch ends whose last step ended so. -/
def StepExit.batchExit : StepExit → BatchExit
  | proceed => .completed
  | halted => .halted
  | syscall => .syscall

section
variable {σ : Type} [Bus σ] (table : IntrinsicTable)

theorem runFrom_zero (executed : Nat) (m : Machine σ) :
    (runFrom table executed 0).run m = (⟨executed, .completed⟩, m) := rfl

/-- A run is a step and, if that proceeds, the run of the others. -/
theorem runFrom_succ (executed n : Nat) (m : Machine σ) :
    (runFrom table executed (n + 1)).run m =
      match outcome (Exec.step table) m with
      | (.ok .proceed, m') => (runFrom table (executed + 1) n).run m'
      | (.ok exit, m') => (⟨executed + 1, exit.batchExit⟩, m')
      | (.error f, m') => (⟨executed, .fault f⟩, m') := by
  rw [runFrom, run_bind_run]
  generalize outcome (Exec.step table) m = p
  obtain ⟨f | exit, m'⟩ := p
  · rfl
  · cases exit <;> rfl

/-- A batch is a batch of one step and, if that was completed, the rest. -/
theorem runFrom_one_add (executed n : Nat) (m : Machine σ) :
    (runFrom table executed (n + 1)).run m =
      if ((runBatch table 1).run m).1.exit = .completed then
        (runFrom table (executed + ((runBatch table 1).run m).1.executed) n).run
          ((runBatch table 1).run m).2
      else
        (⟨executed + ((runBatch table 1).run m).1.executed, ((runBatch table 1).run m).1.exit⟩,
          ((runBatch table 1).run m).2) := by
  rw [runBatch, runFrom_succ, runFrom_succ]
  generalize outcome (Exec.step table) m = p
  obtain ⟨f | exit, m'⟩ := p
  · rfl
  · cases exit <;> rfl

/-- A batch is completed when it has taken all its steps. -/
theorem executed_of_completed {executed n : Nat} {m : Machine σ}
    (h : ((runFrom table executed n).run m).1.exit = .completed) :
    ((runFrom table executed n).run m).1.executed = executed + n := by
  induction n generalizing executed m with
  | zero => rfl
  | succ n ih =>
    rw [runFrom_succ] at h ⊢
    generalize outcome (Exec.step table) m = p at h ⊢
    obtain ⟨f | exit, m'⟩ := p
    · exact nomatch h
    · cases exit with
      | proceed => rw [ih h]; omega
      | halted => exact nomatch h
      | syscall => exact nomatch h

/-- Each instruction that a run counts was retired by a step of its own. -/
theorem step_of_lt_runFrom {executed n k : Nat} {m : Machine σ}
    (h : executed + k < ((runFrom table executed n).run m).1.executed) :
    ∃ m' exit, (runFrom table executed k).run m = (⟨executed + k, .completed⟩, m') ∧
      (outcome (Exec.step table) m').1 = .ok exit := by
  -- induction on the steps before the one in question
  induction k generalizing executed n m with
  | zero =>
    refine ⟨m, ?_⟩
    cases n with
    | zero => exact absurd h (Nat.lt_irrefl executed)
    | succ n =>
      rw [runFrom_succ] at h
      generalize outcome (Exec.step table) m = p at h ⊢
      obtain ⟨f | exit, m'⟩ := p
      · exact absurd h (Nat.lt_irrefl executed)
      · exact ⟨exit, rfl, rfl⟩
  | succ k ih =>
    cases n with
    | zero => exact absurd h (by rw [runFrom_zero]; exact Nat.not_lt.mpr (Nat.le_add_right _ _))
    | succ n =>
      rw [runFrom_succ] at h ⊢
      generalize outcome (Exec.step table) m = p at h ⊢
      have hlast : ¬ executed + (k + 1) < executed + 1 := by omega
      obtain ⟨f | exit, m'⟩ := p
      · exact absurd h (Nat.not_lt.mpr (Nat.le_add_right _ _))
      · cases exit with
        | proceed =>
          have hsum : executed + (k + 1) = executed + 1 + k := by omega
          rw [hsum] at h ⊢
          exact ih h
        | halted => exact absurd h hlast
        | syscall => exact absurd h hlast

/-- **Executed instructions.** The batch up to an executed instruction is completed, and the step there
    succeeds. -/
theorem step_of_lt_executed {n k : Nat} {m : Machine σ}
    (h : k < ((runBatch table n).run m).1.executed) :
    ∃ m' exit, (runBatch table k).run m = (⟨k, .completed⟩, m') ∧
      (outcome (Exec.step table) m').1 = .ok exit := by
  have hlt : 0 + k < ((runFrom table 0 n).run m).1.executed := by rwa [Nat.zero_add]
  obtain ⟨m', exit, hrun, hstep⟩ := step_of_lt_runFrom table hlt
  rw [Nat.zero_add] at hrun
  exact ⟨m', exit, hrun, hstep⟩

end

end Amd64
