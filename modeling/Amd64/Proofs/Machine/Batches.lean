import Amd64.Proofs.Semantics.Precise.Basic
import Amd64.Proofs.Simulation.Run

namespace Amd64

/-!
# Batches one after the other

A batch does not know how many instructions the next one is allowed.  So a budget may be divided at will.

* `inTurn`               — a batch and, only if it was completed, a second one;
* `repeatFrom`           — a batch again and again, as long as it is completed;
* `repeatFrom_add`       — so many times are as many times less some, and then the others;
* `runBatch_add`         — batches compose;
* `exists_last_step`     — a batch that was not completed ended with one of its steps;
* `completed_iff`        — a batch is completed if and only if all its steps proceed;
* `Exec.rip_of_step_error` — a step that ends with a fault leaves the instruction pointer.
-/

section
variable {M : Type → Type} [Monad M]

/-- A batch and, only if it was completed, a second one. Their instructions are counted together. -/
def inTurn (first second : M BatchResult) : M BatchResult := do
  let done ← first
  if done.exit = .completed then
    let more ← second
    return ⟨done.executed + more.executed, more.exit⟩
  else return done

/-- The batch `one` at most `n` further times, as long as it is completed, after `executed` instructions. -/
def repeatFrom (one : M BatchResult) (executed : Nat) : Nat → M BatchResult
  | 0 => return ⟨executed, .completed⟩
  | n + 1 => do
    let result ← one
    if result.exit = .completed then repeatFrom one (executed + result.executed) n
    else return ⟨executed + result.executed, result.exit⟩

variable [LawfulMonad M] (one : M BatchResult)

/-- Instructions that were executed before are counted and do nothing else. -/
theorem repeatFrom_executed (before executed n : Nat) :
    repeatFrom one (before + executed) n = do
      let result ← repeatFrom one executed n
      return ⟨before + result.executed, result.exit⟩ := by
  induction n generalizing executed with
  | zero => simp [repeatFrom]
  | succ n ih =>
    simp only [repeatFrom, bind_assoc]
    congr 1
    funext result
    by_cases hcompleted : result.exit = .completed
    · simp only [hcompleted, if_true]
      rw [Nat.add_assoc]
      exact ih (executed + result.executed)
    · simp [hcompleted, Nat.add_assoc]

/-- **Repetitions.** They may be divided at will. -/
theorem repeatFrom_add (executed n k : Nat) :
    repeatFrom one executed (n + k) = inTurn (repeatFrom one executed n) (repeatFrom one 0 k) := by
  induction n generalizing executed with
  | zero =>
    rw [Nat.zero_add]
    have hshift := repeatFrom_executed one executed 0 k
    rw [Nat.add_zero] at hshift
    rw [hshift]
    simp [repeatFrom, inTurn]
  | succ n ih =>
    rw [Nat.succ_add]
    simp only [repeatFrom, inTurn, bind_assoc]
    congr 1
    funext result
    by_cases hcompleted : result.exit = .completed
    · simp only [hcompleted, if_true]
      exact ih (executed + result.executed)
    · simp [hcompleted]

/-- One round of a repetition. -/
theorem repeatFrom_one : repeatFrom one 0 1 = one := by
  have hsame : ∀ result : BatchResult, (if result.exit = .completed
      then pure ⟨0 + result.executed, .completed⟩ else pure ⟨0 + result.executed, result.exit⟩ : M _) =
        pure result := by
    intro result
    rw [Nat.zero_add]
    split
    · next hcompleted => rw [← hcompleted]
    · rfl
  simp only [repeatFrom, hsame, bind_pure]

/-- A repetition is a first time and the others. -/
theorem repeatFrom_succ (n : Nat) : repeatFrom one 0 (n + 1) = inTurn one (repeatFrom one 0 n) := by
  rw [Nat.add_comm, repeatFrom_add, repeatFrom_one]

end

/-- The second part begins where the first one is completed, and its steps are added. -/
theorem outcome_inTurn {ε σ : Type} (first second : ExceptT ε (StateM σ) BatchResult) (s : σ) :
    outcome (inTurn first second) s =
      match outcome first s with
      | (.ok done, s') =>
        if done.exit = .completed then
          match outcome second s' with
          | (.ok more, s'') => (.ok ⟨done.executed + more.executed, more.exit⟩, s'')
          | (.error e, s'') => (.error e, s'')
        else (.ok done, s')
      | (.error e, s') => (.error e, s') := by
  rw [inTurn, outcome_bind]
  rcases outcome first s with ⟨e | done, s'⟩
  · rfl
  · by_cases hcompleted : done.exit = .completed
    · simp only [hcompleted, if_true, outcome_bind]
      rcases outcome second s' with ⟨e | more, s''⟩ <;> rfl
    · simp only [hcompleted, if_false, outcome_pure]

/-! ### Batches of steps -/

/-- A repetition goes on as long as its rounds are completed. -/
theorem run_repeatFrom_succ {σ : Type} (one : StateM σ BatchResult) (executed n : Nat) (s : σ) :
    (repeatFrom one executed (n + 1)).run s =
      if (one.run s).1.exit = .completed then
        (repeatFrom one (executed + (one.run s).1.executed) n).run (one.run s).2
      else (⟨executed + (one.run s).1.executed, (one.run s).1.exit⟩, (one.run s).2) := by
  show (if (one.run s).1.exit = .completed then
      repeatFrom one (executed + (one.run s).1.executed) n
    else pure ⟨executed + (one.run s).1.executed, (one.run s).1.exit⟩ :
      StateM σ BatchResult).run (one.run s).2 = _
  split <;> rfl

/-- The second part begins where the first one is completed, and its steps are added. -/
theorem run_inTurn {σ : Type} (first second : StateM σ BatchResult) (s : σ) :
    (inTurn first second).run s =
      if (first.run s).1.exit = .completed then
        (⟨(first.run s).1.executed + (second.run (first.run s).2).1.executed,
          (second.run (first.run s).2).1.exit⟩, (second.run (first.run s).2).2)
      else first.run s := by
  show (if (first.run s).1.exit = .completed then
      (second >>= fun more => pure ⟨(first.run s).1.executed + more.executed, more.exit⟩)
    else pure (first.run s).1 : StateM σ BatchResult).run (first.run s).2 = _
  split <;> rfl

section
variable {σ : Type} [Bus σ] (table : IntrinsicTable)

/-- A batch is a batch of one step, repeated. -/
theorem runFrom_eq_repeatFrom (executed n : Nat) :
    (runFrom table executed n : StateM (Machine σ) BatchResult) =
      repeatFrom (runBatch table 1) executed n := by
  induction n generalizing executed with
  | zero => rfl
  | succ n ih =>
    funext m
    have hone := runFrom_one_add table executed n m
    rw [ih, ← run_repeatFrom_succ] at hone
    exact hone

/-- A batch is a batch of one step and, only if that was completed, the rest. -/
theorem runBatch_succ (n : Nat) :
    (runBatch table (n + 1) : StateM (Machine σ) BatchResult) =
      inTurn (runBatch table 1) (runBatch table n) := by
  rw [runBatch, runFrom_eq_repeatFrom, repeatFrom_succ, ← runFrom_eq_repeatFrom, ← runBatch]

/-- **Batches compose.** A batch is a shorter one and, only if that was completed, the rest. -/
theorem runBatch_add (n k : Nat) :
    (runBatch table (n + k) : StateM (Machine σ) BatchResult) =
      inTurn (runBatch table n) (runBatch table k) := by
  rw [runBatch, runBatch, runBatch, runFrom_eq_repeatFrom, runFrom_eq_repeatFrom,
    runFrom_eq_repeatFrom]
  exact repeatFrom_add _ 0 n k

/-- **Prefixes.** The front part of a completed batch is a completed batch. -/
theorem completed_of_le {n k : Nat} {m : Machine σ} (hk : k ≤ n)
    (h : ((runBatch table n).run m).1.exit = .completed) :
    ((runBatch table k).run m).1.exit = .completed := by
  obtain ⟨d, rfl⟩ := Nat.exists_eq_add_of_le hk
  rw [runBatch_add, run_inTurn] at h
  by_cases hcompleted : ((runBatch table k).run m).1.exit = .completed
  · exact hcompleted
  · -- what stops the front part stops the batch
    rw [if_neg hcompleted] at h
    exact h

/-- A batch of one step is completed if and only if the step proceeds. -/
theorem completed_one_iff (m : Machine σ) :
    ((runBatch table 1).run m).1.exit = .completed ↔
      (outcome (Exec.step table) m).1 = .ok .proceed := by
  rw [runBatch, runFrom_succ]
  rcases outcome (Exec.step table) m with ⟨f | exit, m'⟩
  · simp
  · cases exit <;> simp [runFrom_zero, StepExit.batchExit]

/-- **Completed batches.** A batch is completed if and only if it executed as many instructions as it was
    allowed and each of its steps proceeded. -/
theorem completed_iff (n : Nat) (m : Machine σ) :
    ((runBatch table n).run m).1.exit = .completed ↔
      ((runBatch table n).run m).1.executed = n ∧
        ∀ k < n, (outcome (Exec.step table) ((runBatch table k).run m).2).1 = .ok .proceed := by
  constructor
  · intro h
    refine ⟨?_, fun k hk => ?_⟩
    · rw [runBatch, executed_of_completed table h, Nat.zero_add]
    · -- the batch that is longer by the step in question is completed as well
      have hnext : ((runBatch table (k + 1)).run m).1.exit = .completed :=
        completed_of_le table (Nat.succ_le_of_lt hk) h
      have hbefore := completed_of_le table (Nat.le_of_lt hk) h
      rw [runBatch_add, run_inTurn, if_pos hbefore] at hnext
      exact (completed_one_iff table _).mp hnext
  -- and back by induction: each completed batch is followed by one more step
  · rintro ⟨-, hproceed⟩
    induction n with
    | zero => rfl
    | succ n ih =>
      have hbefore := ih fun k hk => hproceed k (Nat.lt_succ_of_lt hk)
      have hlast := (completed_one_iff table _).mpr (hproceed n (Nat.lt_succ_self n))
      rw [runBatch_add, run_inTurn, if_pos hbefore]
      exact hlast

/-- The result of a batch whose last step, after `executed` instructions, ended so. -/
def BatchResult.ofStep (executed : Nat) : Except Fault StepExit → BatchResult
  | .ok exit => ⟨executed + 1, exit.batchExit⟩
  | .error f => ⟨executed, .fault f⟩

/-- A run that ends early ends with its last step, behind a completed run. -/
theorem exists_last_stepFrom {executed n : Nat} {m : Machine σ}
    (h : ((runFrom table executed n).run m).1.exit ≠ .completed) :
    ∃ k m', k < n ∧ (runFrom table executed k).run m = (⟨executed + k, .completed⟩, m') ∧
      (runFrom table executed n).run m =
        (.ofStep (executed + k) (outcome (Exec.step table) m').1,
          (outcome (Exec.step table) m').2) := by
  -- on the budget: either the first step stops the run, or the last step is the one of the rest
  induction n generalizing executed m with
  | zero => exact absurd rfl h
  | succ n ih =>
    rw [runFrom_succ] at h ⊢
    rcases hstep : outcome (Exec.step table) m with ⟨f | exit, m₁⟩
    · refine ⟨0, m, Nat.succ_pos n, rfl, ?_⟩
      simp [hstep, BatchResult.ofStep]
    · cases exit with
      | proceed =>
        rw [hstep] at h
        obtain ⟨k, m', hk, hbefore, hlast⟩ := ih h
        -- the rest starts one step later, and its count is shifted by that step
        have hcount : executed + 1 + k = executed + (k + 1) := by omega
        rw [hcount] at hbefore hlast
        refine ⟨k + 1, m', Nat.succ_lt_succ hk, ?_, hlast⟩
        rw [runFrom_succ, hstep]
        exact hbefore
      | halted =>
        refine ⟨0, m, Nat.succ_pos n, rfl, ?_⟩
        simp [hstep, BatchResult.ofStep]
      | syscall =>
        refine ⟨0, m, Nat.succ_pos n, rfl, ?_⟩
        simp [hstep, BatchResult.ofStep]

/-- **Last steps.** A batch that was not completed ended with one of its steps, before which it was as good
    as completed. -/
theorem exists_last_step {n : Nat} {m : Machine σ}
    (h : ((runBatch table n).run m).1.exit ≠ .completed) :
    ∃ k m', k < n ∧ (runBatch table k).run m = (⟨k, .completed⟩, m') ∧
      (runBatch table n).run m =
        (.ofStep k (outcome (Exec.step table) m').1, (outcome (Exec.step table) m').2) := by
  obtain ⟨k, m', hk, hbefore, hlast⟩ := exists_last_stepFrom table h
  rw [Nat.zero_add] at hbefore hlast
  exact ⟨k, m', hk, hbefore, hlast⟩

end

/-! ### Faults -/

namespace Exec

variable {σ : Type} [Bus σ] {table : IntrinsicTable}

/-- Fetching leaves the registers. -/
theorem keeps_fetchInstruction (table : IntrinsicTable) (rip : UInt64) :
    Keeps Machine.cpu (fetchInstruction table rip : Exec σ Instruction) := by
  unfold fetchInstruction
  split
  · exact keeps_pure _
  · refine (keeps_access _).bind fun bytes => ?_
    split
    · exact keeps_pure _
    · exact keeps_throw _

/-- A step that ends with a fault leaves the instruction pointer where it was. -/
theorem rip_of_step_error {m : Machine σ} {f : Fault}
    (h : (outcome (step table) m).1 = .error f) :
    (outcome (step table) m).2.cpu.rip = m.cpu.rip := by
  have hstep : outcome (step table) m =
      outcome (fetchInstruction table m.cpu.rip >>= fun i => retire i i.binding) m := rfl
  have hfetch := keeps_fetchInstruction table m.cpu.rip m
  rw [hstep, outcome_bind] at h ⊢
  generalize outcome (fetchInstruction table m.cpu.rip) m = p at hfetch h ⊢
  obtain ⟨e | i, m₁⟩ := p
  · exact congrArg Cpu.rip hfetch
  · -- what was fetched leaves the instruction pointer, and only success moves it
    have hfixed := (i.fixed_execute i.binding m₁).1
    have hsame : m₁.cpu.rip = m.cpu.rip := congrArg Cpu.rip hfetch
    simp only [outcome_retire] at h ⊢
    generalize outcome (i.execute i.binding : Exec σ Outcome) m₁ = q at hfixed h ⊢
    obtain ⟨e | out, m₂⟩ := q
    · exact hfixed.trans hsame
    · cases h

end Exec

/-- **Faults of batches.** A batch that ends with a fault executed the instructions before it and no other,
    and leaves the instruction pointer at the one that faulted. -/
theorem fault_of_runBatch {σ : Type} [Bus σ] (table : IntrinsicTable) {n : Nat} {m : Machine σ}
    {f : Fault} (h : ((runBatch table n).run m).1.exit = .fault f) :
    ((runBatch table n).run m).1.executed < n ∧
      ∃ m', (runBatch table ((runBatch table n).run m).1.executed).run m =
          (⟨((runBatch table n).run m).1.executed, .completed⟩, m') ∧
        outcome (Exec.step table) m' = (.error f, ((runBatch table n).run m).2) ∧
        ((runBatch table n).run m).2.cpu.rip = m'.cpu.rip := by
  have hstopped : ((runBatch table n).run m).1.exit ≠ .completed := by
    rw [h]
    exact nofun
  obtain ⟨k, m', hk, hbefore, hlast⟩ := exists_last_step table hstopped
  rw [hlast] at h ⊢
  rcases hstep : outcome (Exec.step table) m' with ⟨e | exit, m''⟩
  · rw [hstep] at h
    obtain rfl : e = f := BatchExit.fault.inj h
    have hrip : (outcome (Exec.step table) m').2.cpu.rip = m'.cpu.rip :=
      Exec.rip_of_step_error (congrArg Prod.fst hstep)
    rw [hstep] at hrip
    exact ⟨hk, m', hbefore, hstep, hrip⟩
  · -- an instruction that was executed does not end a batch with a fault
    rw [hstep] at h
    cases exit <;> cases h

end Amd64
