import Amd64.Proofs.Machine.Protection
import Amd64.Proofs.Runner.Recording
import Amd64.Proofs.Trace.StepLog

namespace Amd64

/-!
# Slices of a run

A runner lets its guest run in slices of a fixed size.  Nothing that can be seen depends on the size.

* `Session.runSlice_add` — slices compose as batches do, recorded or not;
* `Session.runFrom_eq`   — slices one after the other are one slice;
* `batches_compose`      — batches, and runs in slices.
-/

namespace Session

/-- **Slices compose.** -/
theorem runSlice_add (n k : Nat) (s : Session) :
    outcome (runSlice (n + k)) s = outcome (inTurn (runSlice n) (runSlice k)) s := by
  obtain ⟨m, table, recorder⟩ := s
  rw [outcome_inTurn]
  -- the two ways to run differ only in who carries the machine
  cases recorder with
  | none =>
    have hbatch := congrArg (fun x => x.run m) (runBatch_add table (σ := Memory) n k)
    simp only [run_inTurn] at hbatch
    simp only [runSlice, outcome_mk, hbatch]
    rcases (runBatch table n : StateM (Machine Memory) BatchResult).run m with ⟨done, m'⟩
    by_cases hcompleted : done.exit = .completed
    · simp only [hcompleted, if_true]
      rfl
    · simp only [hcompleted, if_false]
  | some recorder =>
    have hrun := congrArg (outcome · ⟨m, recorder⟩) (Recorder.run_add table n k)
    simp only [outcome_inTurn] at hrun
    simp only [runSlice, outcome_mk, run_run, hrun]
    rcases outcome (Recorder.run table n) ⟨m, recorder⟩ with ⟨e | done, m', recorder'⟩
    · rfl
    · by_cases hcompleted : done.exit = .completed
      · simp only [hcompleted, if_true]
        rcases outcome (Recorder.run table k) ⟨m', recorder'⟩ with ⟨e | more, m'', recorder''⟩ <;> rfl
      · simp only [hcompleted, if_false]

theorem runSlice_zero (s : Session) : outcome (runSlice 0) s = (.ok ⟨0, .completed⟩, s) := by
  obtain ⟨m, table, recorder⟩ := s
  cases recorder <;> rfl

/-- A slice always has a result, and a slice that is completed executed all its instructions. -/
theorem exists_runSlice (n : Nat) (s : Session) :
    ∃ result s', outcome (runSlice n) s = (.ok result, s') ∧
      (result.exit = .completed → result.executed = n) := by
  obtain ⟨s', hslice, -, -⟩ := runSlice_eq n s
  refine ⟨_, s', hslice, fun hcompleted => ?_⟩
  exact ((completed_iff s.table n s.machine).mp hcompleted).1

/-- A run in one slice. -/
def runWhole (limit : Nat) : SessionM (Stop × Nat) := do
  let result ← runSlice limit
  conclude result.executed result.exit

/-- What is left of a budget may be run in slices or at once. -/
theorem runFrom_eq {slice limit n total : Nat} (hbudget : limit - total ≤ n * slice)
    (htotal : total ≤ limit) (s : Session) :
    outcome (runFrom slice limit n total) s =
      outcome (do
        let result ← runSlice (limit - total)
        conclude (total + result.executed) result.exit) s := by
  -- where nothing is left, nothing is run
  have hdone : limit - total = 0 → (.ok (.limit, total), s) =
      outcome (do
        let result ← runSlice (limit - total)
        conclude (total + result.executed) result.exit) s := by
    intro hzero
    rw [hzero, outcome_bind, runSlice_zero]
    rfl
  induction n generalizing total s with
  | zero => exact hdone (by omega)
  | succ n ih =>
    rw [runFrom]
    by_cases hlimit : limit ≤ total
    · rw [if_pos hlimit]
      exact hdone (by omega)
    · rw [if_neg hlimit]
      -- the next slice is the front part of all that is left
      obtain ⟨size, hsize⟩ : ∃ size, size = min (limit - total) slice := ⟨_, rfl⟩
      obtain ⟨rest, hrest⟩ : ∃ rest, rest = limit - (total + size) := ⟨_, rfl⟩
      have hparts : limit - total = size + rest := by omega
      have hmul : (n + 1) * slice = n * slice + slice := Nat.succ_mul n slice
      rw [← hsize, outcome_bind, outcome_bind, hparts, runSlice_add, outcome_inTurn]
      obtain ⟨result, s₁, hslice, hexecuted⟩ := exists_runSlice size s
      rw [hslice]
      by_cases hcompleted : result.exit = .completed
      · simp only [hcompleted, if_true, hexecuted hcompleted]
        have hleft : limit - (total + size) ≤ n * slice := by omega
        have hlater := ih hleft (by omega) s₁ (by
          intro hzero
          rw [hzero, outcome_bind, runSlice_zero]
          rfl)
        rw [hlater, ← hrest, outcome_bind]
        obtain ⟨later, s₂, hslice₂, -⟩ := exists_runSlice rest s₁
        simp only [hslice₂, Nat.add_assoc]
      · simp only [hcompleted, if_false]

/-- **Runs in slices.** A run in slices of any positive size is a run in one slice. -/
theorem runInSlices_eq {slice : Nat} (hslice : 0 < slice) (limit : Nat) (s : Session) :
    outcome (runInSlices slice limit) s = outcome (runWhole limit) s := by
  have hbudget : limit - 0 ≤ (limit / slice + 2) * slice := by
    have hdiv := Nat.div_add_mod limit slice
    have hmod := Nat.mod_lt limit hslice
    have hmul : (limit / slice + 2) * slice = slice * (limit / slice) + 2 * slice := by
      rw [Nat.add_mul, Nat.mul_comm]
    omega
  have hwhole := runFrom_eq hbudget (Nat.zero_le limit) s
  simp only [Nat.sub_zero, Nat.zero_add] at hwhole
  exact hwhole

/-- Without a recorder, a run in one slice is a batch, and what its end means. -/
theorem runWhole_of_none (limit : Nat) (m : Machine Memory) (table : IntrinsicTable) :
    outcome (runWhole limit) ⟨m, table, none⟩ =
      outcome (conclude ((runBatch table limit).run m).1.executed
          ((runBatch table limit).run m).1.exit)
        ⟨((runBatch table limit).run m).2, table, none⟩ := by
  have hslice : outcome (runSlice limit) ⟨m, table, none⟩ =
      (.ok ((runBatch table limit).run m).1, ⟨((runBatch table limit).run m).2, table, none⟩) := rfl
  rw [runWhole, outcome_bind, hslice]

end Session

/-- **Batches compose.** A batch is a shorter one and, only if that was completed, the rest, with the
    instructions of both counted.  A batch is completed if and only if it executed its whole budget and
    every step proceeded.  One that ends with a fault counts the instructions before the one at fault, at which
    it leaves the instruction pointer.  So a run in slices of any positive size, recorded or not, is a run in
    one slice; and the runner's, without a recorder, is one batch. -/
theorem batches_compose :
    (∀ {σ : Type} [Bus σ] (table : IntrinsicTable) (n k : Nat),
      (runBatch table (n + k) : StateM (Machine σ) BatchResult) =
        inTurn (runBatch table n) (runBatch table k)) ∧
    (∀ {σ : Type} [Bus σ] (table : IntrinsicTable) (n : Nat) (m : Machine σ),
      ((runBatch table n).run m).1.exit = .completed ↔
        ((runBatch table n).run m).1.executed = n ∧
          ∀ k < n, (outcome (Exec.step table) ((runBatch table k).run m).2).1 = .ok .proceed) ∧
    (∀ {σ : Type} [Bus σ] (table : IntrinsicTable) (n : Nat) (m : Machine σ) (f : Fault),
      ((runBatch table n).run m).1.exit = .fault f →
        ((runBatch table n).run m).1.executed < n ∧
          ∃ m', (runBatch table ((runBatch table n).run m).1.executed).run m =
              (⟨((runBatch table n).run m).1.executed, .completed⟩, m') ∧
            outcome (Exec.step table) m' = (.error f, ((runBatch table n).run m).2) ∧
            ((runBatch table n).run m).2.cpu.rip = m'.cpu.rip) ∧
    (∀ (slice limit : Nat) (s : Session), 0 < slice →
      outcome (Session.runInSlices slice limit) s = outcome (Session.runWhole limit) s) ∧
    ∀ (limit : Nat) (m : Machine Memory) (table : IntrinsicTable),
      outcome (Session.run limit) ⟨m, table, none⟩ =
        outcome (Session.conclude ((runBatch table limit).run m).1.executed
            ((runBatch table limit).run m).1.exit)
          ⟨((runBatch table limit).run m).2, table, none⟩ := by
  refine ⟨fun table n k => runBatch_add table n k, fun table n m => completed_iff table n m,
    fun table n m f hfault => fault_of_runBatch table hfault,
    fun slice limit s hslice => Session.runInSlices_eq hslice limit s, fun limit m table => ?_⟩
  -- the runner's own slice is one of the positive sizes
  have hslice : 0 < Session.sliceBudget := by decide
  have hrun := Session.runInSlices_eq hslice limit ⟨m, table, none⟩
  exact hrun.trans (Session.runWhole_of_none limit m table)

/-- Of the code that writes to itself, the first instruction is executed and the second is at fault, also
    if it is the first of a slice. -/
theorem batches_compose_selfWriting :
    (∃ m', (runBatch ⟨[]⟩ 1).run selfWriting = (⟨1, .completed⟩, m') ∧
        ((runBatch ⟨[]⟩ 2).run selfWriting).2.cpu.rip = m'.cpu.rip) ∧
      outcome (Session.runInSlices 1 2) ⟨selfWriting, ⟨[]⟩, none⟩ =
        outcome (Session.runWhole 2) ⟨selfWriting, ⟨[]⟩, none⟩ := by
  obtain ⟨-, -, hfaults, hslices, -⟩ := batches_compose
  have hrun : ((runBatch ⟨[]⟩ 2).run selfWriting).1 =
      ⟨1, .fault (.memory (.denied 0x1001 1 .write))⟩ := by decide +kernel
  obtain ⟨-, m', hbefore, -, hrip⟩ := hfaults ⟨[]⟩ 2 selfWriting _ (congrArg BatchResult.exit hrun)
  rw [hrun] at hbefore
  exact ⟨⟨m', hbefore, hrip⟩, hslices 1 2 _ (by decide)⟩

end Amd64
