import Amd64.Proofs.Machine.Equivalence
import Amd64.Proofs.Trace.Replay

namespace Amd64

/-!
# A trace is a log of execution

The entries of a run say where each instruction was, which bytes it consisted of, what the registers were and
which accesses it made.  From one entry and the memory at its time the next one follows, and entries of later
runs have greater indices.

* `StepLog.Describes`       — what an entry says;
* `StepLog.describes`       — and it is true;
* `step_restore`            — who goes on from an entry comes to the next one;
* `IsExecutionLog`          — all of this for the entries of a run;
* `RecordedCall`, `callsLog` — several calls of one recorder, and their entries;
* `pairwise_callsLog`       — these are in the order of their indices;
* `exists_afterCalls`       — and the recorder appends them.
-/

/-- The entry says what there is to say about the next instruction of the machine, with the given index. -/
structure StepLog.Describes (table : IntrinsicTable) (index : UInt64) (m : Machine Memory)
    (l : StepLog) : Prop where
  index : l.step.index = index
  pc : l.step.pc = m.cpu.rip
  state : l.step.state = m.cpu.snapshot
  /-- The accesses are those of the instruction. -/
  events : l.events = ((watching .whole (runBatch table 1)).run m).1.2
  /-- A routine has no bytes. -/
  routine : ∀ id, table.get? m.cpu.rip = some id →
    l.step.code = [] ∧ l.step.disassembly = some (Instruction.ofIntrinsic m.cpu.rip id).text
  /-- The bytes of other instructions are those that were decoded. -/
  decoded : table.get? m.cpu.rip = none → ∃ i, decode m.cpu.rip l.step.code = .ok i ∧
    l.step.code = i.encoding.bytes ∧ l.step.disassembly = some i.text
  /-- They lie at the instruction pointer. -/
  bytes : l.step.code.map some =
    (List.range' m.cpu.rip.toNat l.step.code.length).map fun x => (m.bus.view? x).map Prod.fst

/-- The beginning of a range is a range. -/
theorem take_range' (a n k : Nat) : (List.range' a n).take k = List.range' a (min k n) := by
  apply List.ext_getElem <;> simp

/-- What is recorded of an instruction is true. -/
theorem StepLog.describes {table : IntrinsicTable} {index : UInt64} {m : Machine Memory} {l : StepLog}
    (hm : m.bus.table.WellFormed) (h : m.stepLog? table index = some l) :
    l.Describes table index m := by
  obtain ⟨i, hinstruction, rfl⟩ := Machine.stepLog?_eq_some_iff.mp h
  -- a routine stands at the address, or its bytes are decoded
  cases hroutine : table.get? m.cpu.rip with
  | some id =>
    have hi : Instruction.ofIntrinsic m.cpu.rip id = i := by
      rw [Memory.instructionAt, hroutine] at hinstruction
      exact Except.ok.inj hinstruction
    subst hi
    refine ⟨rfl, rfl, rfl, rfl, fun id' hid => ?_, fun hnone => ?_, rfl⟩
    · rw [hroutine] at hid
      obtain rfl := Option.some.inj hid
      exact ⟨rfl, rfl⟩
    · rw [hroutine] at hnone
      cases hnone
  | none =>
    obtain ⟨bs, hfetch, hdecode⟩ := Memory.exists_fetch_of_instructionAt hinstruction hroutine
    obtain ⟨-, -, hbytes, hprefix, -⟩ := decode_ok_spec m.cpu.rip hdecode
    refine ⟨rfl, rfl, rfl, rfl, fun id hid => ?_, fun _ => ⟨i, ?_, rfl, rfl⟩, ?_⟩
    · rw [hroutine] at hid
      cases hid
    -- the bytes of the instruction are enough to decode it
    · have hself := hprefix []
      rw [List.append_nil, ← hbytes] at hself
      exact hself
    -- they are the first ones of the code at the address
    · have hcells := Memory.byteList_fetch hm hfetch
      rw [Table.code_eq_range'] at hcells
      have hlength : (byteList bs).length = (m.bus.table.code m.cpu.rip.toNat Encoding.maxSize).length := by
        have hlen := congrArg List.length hcells
        simpa using hlen
      rw [hbytes, List.map_take, hcells, ← List.map_take, take_range', List.length_take, hlength]

/-! ### From entry to entry -/

section
variable {table : IntrinsicTable} {m : Machine Memory}

/-- After one instruction is after a step. -/
theorem after_one (table : IntrinsicTable) (m : Machine Memory) :
    m.after table 1 = (outcome (Exec.step table) m).2 := by
  rw [Machine.after, runBatch, runFrom_succ]
  rcases outcome (Exec.step table) m with ⟨f | exit, m'⟩
  · rfl
  · cases exit <;> rfl

/-- A batch that is longer by one instruction goes one step further, unless it was stopped before. -/
theorem after_succ (table : IntrinsicTable) (k : Nat) (m : Machine Memory) :
    m.after table (k + 1) =
      if ((runBatch table k).run m).1.exit = .completed then
        (outcome (Exec.step table) (m.after table k)).2
      else m.after table k := by
  rw [Machine.after, runBatch_add, run_inTurn]
  split
  · exact after_one table (m.after table k)
  · rfl

/-- What every step keeps, every batch keeps. -/
theorem after_induction {P : Machine Memory → Prop}
    (hstep : ∀ m, P m → P (outcome (Exec.step table) m).2) (h : P m) (k : Nat) :
    P (m.after table k) := by
  induction k with
  | zero => exact h
  | succ k ih =>
    rw [after_succ]
    split
    · exact hstep _ ih
    · exact ih

/-- **Going on.** The processor of an entry, with the memory at its time, comes with one step to the next
    entry. -/
theorem step_restore {index : UInt64} {n k : Nat} {l l' : StepLog}
    (hcpu : m.cpu.flags.reserved = true) (hl : (executionLog table index n m)[k]? = some l)
    (hl' : (executionLog table index n m)[k + 1]? = some l') :
    ∃ m', outcome (Exec.step table) ⟨Cpu.restore l.step.state, (m.after table k).bus⟩ =
        (.ok .proceed, m') ∧
      m'.cpu.snapshot = l'.step.state ∧ m'.bus = (m.after table (k + 1)).bus := by
  obtain ⟨hbefore, hentry⟩ := getElem?_executionLog hl
  obtain ⟨hnext, hentry'⟩ := getElem?_executionLog hl'
  obtain ⟨i, -, rfl⟩ := Machine.stepLog?_eq_some_iff.mp hentry
  obtain ⟨i', -, rfl⟩ := Machine.stepLog?_eq_some_iff.mp hentry'
  -- there is a next entry, so the step of this one proceeded
  have hproceed : (outcome (Exec.step table) (m.after table k)).1 = .ok .proceed :=
    ((completed_iff table (k + 1) m).mp (congrArg BatchResult.exit hnext)).2 k (Nat.lt_succ_self k)
  have hafter : m.after table (k + 1) = (outcome (Exec.step table) (m.after table k)).2 := by
    rw [after_succ, hbefore, if_pos rfl]
  -- the restored processor is equivalent to the one that the snapshot was taken of
  have hreserved : (m.after table k).cpu.flags.reserved = true :=
    after_induction (P := fun m => m.cpu.flags.reserved = true)
      (fun _ h => Cpu.reserved_step table h) hcpu k
  have hrelated : Machine.Related Cpu.Equivalent (· = ·)
      ⟨Cpu.restore (m.after table k).cpu.snapshot, (m.after table k).bus⟩ (m.after table k) :=
    ⟨Cpu.equivalent_restore hreserved, rfl⟩
  obtain ⟨hval, hleft, hbus⟩ :=
    Exec.alike_step (congruence_equivalent Memory) Cpu.keeps_setRip table _ _ hrelated
  refine ⟨_, Prod.ext (hval.trans hproceed) rfl, ?_, ?_⟩
  · show (outcome (Exec.step table) _).2.cpu.snapshot = (m.after table (k + 1)).cpu.snapshot
    rw [hafter]
    exact Cpu.equivalent_iff.mp hleft
  · rw [hafter]
    exact hbus

end

/-- The entries are those of a run of at most `n` instructions, the first of which has the given index. -/
structure IsExecutionLog (table : IntrinsicTable) (index : UInt64) (n : Nat) (m : Machine Memory)
    (logs : List StepLog) : Prop where
  /-- One for each instruction that was executed, and one for an instruction that was fetched and was at
      fault. -/
  length : logs.length = ((runBatch table n).run m).1.recorded
    ((m.after table ((runBatch table n).run m).1.executed).fetches table)
  /-- Entry `k` tells of the machine after `k` instructions. -/
  describes : ∀ (k : Nat) (l : StepLog), logs[k]? = some l →
    l.Describes table (index + UInt64.ofNat k) (m.after table k)
  /-- From its processor and the memory at its time, one step leads to the next one. -/
  next : ∀ (k : Nat) (l l' : StepLog), logs[k]? = some l → logs[k + 1]? = some l' → ∃ m',
    outcome (Exec.step table) ⟨Cpu.restore l.step.state, (m.after table k).bus⟩ = (.ok .proceed, m') ∧
      m'.cpu.snapshot = l'.step.state ∧ m'.bus = (m.after table (k + 1)).bus

/-- **Logs.** The entries of a run are a log of it. -/
theorem isExecutionLog_executionLog (table : IntrinsicTable) (index : UInt64) (n : Nat)
    {m : Machine Memory} (hcpu : m.cpu.flags.reserved = true) (hbus : m.bus.table.WellFormed) :
    IsExecutionLog table index n m (executionLog table index n m) where
  length := length_executionLog table index n m
  describes k _ h :=
    StepLog.describes (protects_runBatch table k hbus).wellFormed (getElem?_executionLog h).2
  next _ _ _ hl hl' := step_restore hcpu hl hl'

/-! ### Number and order of entries -/

/-- Not more steps are recorded than are tried. -/
theorem BatchResult.recorded_le_attempts (r : BatchResult) (fetched : Bool) :
    r.recorded fetched ≤ r.attempts := by
  obtain ⟨executed, exit⟩ := r
  cases exit with
  | fault f => exact Nat.add_le_add_left (Bool.toNat_le fetched) executed
  | completed | halted | syscall => exact Nat.le_refl executed

/-- A call of a recorder: the routines and the machine that it finds, and how many instructions it is
    allowed. -/
structure RecordedCall where
  table : IntrinsicTable
  machine : Machine Memory
  budget : Nat

/-- How many instructions the call tries. -/
def RecordedCall.attempts (c : RecordedCall) : Nat :=
  ((runBatch c.table c.budget).run c.machine).1.attempts

/-- The recorder after the call. -/
def Recorder.afterCall (r : Recorder) (c : RecordedCall) : Recorder :=
  (outcome (run c.table c.budget) ⟨c.machine, r⟩).2.recorder

/-- The entries of several calls, whose indices go on from call to call. -/
def callsLog (index : UInt64) : List RecordedCall → List StepLog
  | [] => []
  | c :: calls =>
    executionLog c.table index c.budget c.machine ++ callsLog (index + UInt64.ofNat c.attempts) calls

section
variable {index : UInt64} {calls : List RecordedCall}

/-- Where no index is beyond the greatest word, entry `k` of a call has the index that is greater by `k`. -/
theorem index_of_getElem? {table : IntrinsicTable} {n k : Nat} {m : Machine Memory} {l : StepLog}
    (hfit : index.toNat + ((runBatch table n).run m).1.attempts < UInt64.size)
    (h : (executionLog table index n m)[k]? = some l) :
    l.step.index.toNat = index.toNat + k ∧ k < ((runBatch table n).run m).1.attempts := by
  have hlength : k < (executionLog table index n m).length := (List.getElem?_eq_some_iff.mp h).1
  have hcount := BatchResult.recorded_le_attempts ((runBatch table n).run m).1
    ((m.after table ((runBatch table n).run m).1.executed).fetches table)
  rw [length_executionLog] at hlength
  have hattempts : k < ((runBatch table n).run m).1.attempts := Nat.lt_of_lt_of_le hlength hcount
  obtain ⟨i, -, rfl⟩ := Machine.stepLog?_eq_some_iff.mp (getElem?_executionLog h).2
  refine ⟨?_, hattempts⟩
  show (index + UInt64.ofNat k).toNat = index.toNat + k
  have hword : UInt64.size = 2 ^ 64 := rfl
  rw [UInt64.toNat_add, UInt64.toNat_ofNat', Nat.add_mod_mod]
  exact Nat.mod_eq_of_lt (by omega)

/-- The counter does not wrap as long as all attempts fit. -/
theorem toNat_add_attempts {c : RecordedCall}
    (hfit : index.toNat + ((c :: calls).map RecordedCall.attempts).sum < UInt64.size) :
    (index + UInt64.ofNat c.attempts).toNat = index.toNat + c.attempts := by
  have hword : UInt64.size = 2 ^ 64 := rfl
  rw [List.map_cons, List.sum_cons] at hfit
  rw [UInt64.toNat_add, UInt64.toNat_ofNat', Nat.add_mod_mod]
  exact Nat.mod_eq_of_lt (by omega)

/-- The entries of later calls have no smaller indices. -/
theorem le_index_of_mem_callsLog
    (hfit : index.toNat + (calls.map RecordedCall.attempts).sum < UInt64.size) {l : StepLog}
    (h : l ∈ callsLog index calls) : index.toNat ≤ l.step.index.toNat := by
  induction calls generalizing index with
  | nil => cases h
  | cons c calls ih =>
    have hnext := toNat_add_attempts hfit
    rw [List.map_cons, List.sum_cons] at hfit
    obtain hfirst | hlater := List.mem_append.mp h
    · obtain ⟨k, hk⟩ := List.getElem?_of_mem hfirst
      have hcall : index.toNat + c.attempts < UInt64.size := by omega
      rw [(index_of_getElem? hcall hk).1]
      exact Nat.le_add_right _ _
    · have hle := ih (by omega) hlater
      omega

/-- **Order.** Within a call and across calls, later entries have greater indices. -/
theorem pairwise_callsLog
    (hfit : index.toNat + (calls.map RecordedCall.attempts).sum < UInt64.size) :
    (callsLog index calls).Pairwise fun l l' => l.step.index < l'.step.index := by
  -- on the calls: each takes the indices that follow those of the calls before it
  induction calls generalizing index with
  | nil => exact List.Pairwise.nil
  | cons c calls ih =>
    have hnext := toNat_add_attempts hfit
    rw [List.map_cons, List.sum_cons] at hfit
    have hcall : index.toNat + c.attempts < UInt64.size := by omega
    have hrest : (index + UInt64.ofNat c.attempts).toNat +
        (calls.map RecordedCall.attempts).sum < UInt64.size := by omega
    rw [callsLog, List.pairwise_append]
    refine ⟨?_, ih hrest, fun l hl l' hl' => ?_⟩
    -- inside one call the indices count up from its first one
    · rw [List.pairwise_iff_getElem]
      intro j k hj hk hjk
      have hfirst := (index_of_getElem? hcall (List.getElem?_eq_getElem hj)).1
      have hsecond := (index_of_getElem? hcall (List.getElem?_eq_getElem hk)).1
      rw [UInt64.lt_iff_toNat_lt]
      omega
    · -- an entry of the first call was tried, and the other ones have the indices behind
      obtain ⟨k, hk⟩ := List.getElem?_of_mem hl
      obtain ⟨hindex, hattempts⟩ := index_of_getElem? hcall hk
      have hlater := le_index_of_mem_callsLog hrest hl'
      have hlt : k < c.attempts := hattempts
      rw [UInt64.lt_iff_toNat_lt]
      omega

/-- What calls record can be read back as it is. -/
theorem canonical_callsLog (h : ∀ c ∈ calls, c.machine.bus.table.WellFormed) :
    ∀ r ∈ (callsLog index calls).flatMap StepLog.records, r.Canonical := by
  induction calls generalizing index with
  | nil => exact nofun
  | cons c calls ih =>
    intro r hr
    rw [callsLog, List.flatMap_append] at hr
    obtain hfirst | hlater := List.mem_append.mp hr
    · exact canonical_executionLog c.table index c.budget (h c List.mem_cons_self) r hfirst
    · exact ih (fun c hc => h c (List.mem_cons_of_mem _ hc)) r hlater

/-- **Several calls.** A recorder appends their entries and nothing else. -/
theorem Recorder.exists_afterCalls (r : Recorder) (calls : List RecordedCall) :
    r.writer.Appends ((callsLog r.steps calls).flatMap StepLog.records)
      (calls.foldl afterCall r).writer := by
  induction calls generalizing r with
  | nil => exact TraceWriter.appends_nil _
  | cons c calls ih =>
    obtain ⟨s', hrun, -, hsteps, happends⟩ :=
      exists_run c.table (s := ⟨c.machine, r⟩) (same_refl c.machine) c.budget
    have hafter : r.afterCall c = s'.recorder := by rw [afterCall, hrun]
    have hrest := ih (r.afterCall c)
    rw [hafter, hsteps] at hrest
    rw [callsLog, List.flatMap_append, List.foldl_cons, hafter]
    exact happends.append hrest

end

end Amd64
