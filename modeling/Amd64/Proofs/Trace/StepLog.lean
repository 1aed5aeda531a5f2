import Amd64.Proofs.Instruction.TextLength
import Amd64.Proofs.Machine.Batches
import Amd64.Proofs.Machine.Fetch
import Amd64.Proofs.Machine.Observation
import Amd64.Proofs.Trace.Recorder
import Amd64.Proofs.Trace.RoundTrip

namespace Amd64

/-!
# What a recorder writes of a run

For each instruction that can be fetched there is an entry: the step with the registers before it, and the
accesses that it made.  The entries of a run are those of the machines that the batch goes through.

* `TraceWriter.Appends`    — records that were appended to a trace;
* `Machine.stepLog?`       — the entry of the next instruction;
* `executionLog`           — the entries of a run;
* `Recorder.exists_runOne`, `Recorder.exists_run` — a recorder appends these and nothing else;
* `Recorder.run_related`   — so a recorded run ends like the batch and leaves an equivalent machine;
* `length_executionLog`, `getElem?_executionLog` — how many there are, and what each says.
-/

/-! ### Appended records -/

namespace TraceWriter

/-- Appending the records to the trace of `w` leads to `w'`. -/
def Appends (w : TraceWriter) (rs : List Record) (w' : TraceWriter) : Prop :=
  outcome (TraceItem.writeAll false (rs.map .record)) w = (.ok (), w')

variable {w w₁ w' : TraceWriter} {r : Record} {rs ss : List Record}

theorem appends_nil (w : TraceWriter) : w.Appends [] w := rfl

/-- The first record is appended, then the others. -/
theorem appends_cons_iff :
    w.Appends (r :: rs) w' ↔ ∃ w₁, outcome (write r) w = (.ok (), w₁) ∧ w₁.Appends rs w' := by
  rw [Appends, List.map_cons, TraceItem.writeAll, outcome_bind_eq_ok_iff]
  constructor
  · rintro ⟨⟨⟩, w₁, hfirst, hrest⟩
    exact ⟨w₁, hfirst, hrest⟩
  · rintro ⟨w₁, hfirst, hrest⟩
    exact ⟨(), w₁, hfirst, hrest⟩

/-- Records are appended one after the other. -/
theorem Appends.append (h : w.Appends rs w₁) (h' : w₁.Appends ss w') : w.Appends (rs ++ ss) w' := by
  induction rs generalizing w with
  | nil =>
    obtain rfl : w = w₁ := (Prod.mk.inj h).2
    exact h'
  | cons r rs ih =>
    obtain ⟨w₂, hfirst, hrest⟩ := appends_cons_iff.mp h
    exact appends_cons_iff.mpr ⟨w₂, hfirst, ih hrest⟩

/-- A record that writers accept is appended. -/
theorem exists_write (h : r.Accepted) (w : TraceWriter) :
    ∃ w', outcome (write r) w = (.ok (), w') ∧ w.Appends [r] w' := by
  obtain ⟨frame, hframe⟩ := h
  have hwrite : outcome (write r) w = (.ok (), append frame w) :=
    write_eq_ok_iff.mpr ⟨frame, hframe, rfl⟩
  exact ⟨_, hwrite, appends_cons_iff.mpr ⟨_, hwrite, appends_nil _⟩⟩

/-- **Appended records are read.** What was appended yields the records, if these can be read. -/
theorem Appends.yields (h : w.Appends rs w') (hcanonical : ∀ r ∈ rs, r.Canonical) :
    ∃ bs, byteList w'.output = byteList w.output ++ bs ∧ Yields rs bs := by
  have hsize : ∀ e, TraceItem.record (.memoryEvent e) ∈ rs.map TraceItem.record →
      e.size.toNat ∈ [1, 2, 4, 8, 16] := by
    intro e he
    obtain ⟨r, hr, hre⟩ := List.mem_map.mp he
    obtain rfl : r = .memoryEvent e := TraceItem.record.inj hre
    exact hcanonical _ hr
  obtain ⟨bs, hbs, hyields⟩ := TraceItem.yields_writeAll hsize h
  have hrecords : TraceItem.records false (rs.map .record) = rs := by
    have hself : rs.map Record.normalize = rs :=
      (List.map_congr_left fun r hr => Record.normalize_eq_self (hcanonical r hr)).trans (List.map_id rs)
    rw [TraceItem.records, List.filterMap_map]
    simpa [Function.comp_def, TraceItem.read?, List.filterMap_eq_map] using hself
  exact ⟨bs, hbs, hrecords ▸ hyields⟩

end TraceWriter

/-! ### Entries -/

/-- What is recorded of an instruction. -/
structure StepLog where
  step : StepRecord
  events : List MemoryEvent

/-- The records of an entry. -/
def StepLog.records (l : StepLog) : List Record :=
  .step l.step :: l.events.map .memoryEvent

/-- The entry of the instruction at the instruction pointer, if it can be fetched. -/
def Machine.stepLog? (table : IntrinsicTable) (index : UInt64) (m : Machine Memory) : Option StepLog :=
  match m.bus.instructionAt table m.cpu.rip with
  | .error _ => none
  | .ok i => some
    ⟨⟨index, m.cpu.rip, i.encoding.bytes, some i.text, m.cpu.snapshot⟩,
      ((watching .whole (runBatch table 1)).run m).1.2⟩

/-- What cannot be fetched is not logged. -/
theorem Machine.stepLog?_of_error {table : IntrinsicTable} {index : UInt64} {m : Machine Memory}
    {f : Fault} (h : m.bus.instructionAt table m.cpu.rip = .error f) :
    m.stepLog? table index = none := by
  rw [stepLog?, h]

/-- What was fetched is logged with its events. -/
theorem Machine.stepLog?_of_ok {table : IntrinsicTable} {index : UInt64} {m : Machine Memory}
    {i : Instruction} (h : m.bus.instructionAt table m.cpu.rip = .ok i) :
    m.stepLog? table index = some
      ⟨⟨index, m.cpu.rip, i.encoding.bytes, some i.text, m.cpu.snapshot⟩,
        ((watching .whole (runBatch table 1)).run m).1.2⟩ := by
  rw [stepLog?, h]

/-- An entry is that of an instruction. -/
theorem Machine.stepLog?_eq_some_iff {table : IntrinsicTable} {index : UInt64} {m : Machine Memory}
    {l : StepLog} :
    m.stepLog? table index = some l ↔ ∃ i, m.bus.instructionAt table m.cpu.rip = .ok i ∧
      l = ⟨⟨index, m.cpu.rip, i.encoding.bytes, some i.text, m.cpu.snapshot⟩,
        ((watching .whole (runBatch table 1)).run m).1.2⟩ := by
  cases hinstruction : m.bus.instructionAt table m.cpu.rip with
  | error f => simp [stepLog?_of_error hinstruction]
  | ok i => simp [stepLog?_of_ok hinstruction, eq_comm]

/-- The machine that is left by a batch of at most `k` instructions. -/
def Machine.after {σ : Type} [Bus σ] (table : IntrinsicTable) (k : Nat) (m : Machine σ) : Machine σ :=
  ((runBatch table k).run m).2

/-- The entries of at most `n` instructions, the first of which has the given index. -/
def executionLog (table : IntrinsicTable) (index : UInt64) : Nat → Machine Memory → List StepLog
  | 0, _ => []
  | n + 1, m =>
    (m.stepLog? table index).toList ++
      if ((runBatch table 1).run m).1.exit = .completed then
        executionLog table (index + 1) n (m.after table 1)
      else []

namespace BatchResult

/-- How many instructions were tried: those that were executed, and one at fault. -/
def attempts (r : BatchResult) : Nat :=
  match r.exit with
  | .fault _ => r.executed + 1
  | _ => r.executed

/-- How many of them have an entry: the one at fault only if it was fetched. -/
def recorded (r : BatchResult) (fetched : Bool) : Nat :=
  match r.exit with
  | .fault _ => r.executed + fetched.toNat
  | _ => r.executed

end BatchResult

/-! ### Accesses of one instruction -/

section
variable (table : IntrinsicTable)

/-- A memory under observation is fetched from like the memory, and nothing is kept of it. -/
theorem Watched.outcome_fetchInstruction (rip : UInt64) (m : Machine (Watched .whole)) :
    outcome (Exec.fetchInstruction table rip) m = (m.bus.memory.instructionAt table rip, m) := by
  obtain ⟨s, memory, events⟩ := m
  unfold Exec.fetchInstruction Memory.instructionAt
  cases table.get? rip with
  | some id => rfl
  | none =>
    -- a fetch is not an access of the instruction, so watching adds no event
    have hfetch : outcome (Bus.fetch rip Encoding.maxSize : BusM (Watched .whole) ByteArray)
        ⟨memory, events⟩ = (memory.fetch rip Encoding.maxSize, ⟨memory, events⟩) := by
      have hask : outcome (Bus.fetch rip Encoding.maxSize : BusM Memory ByteArray) memory =
          (memory.fetch rip Encoding.maxSize, memory) := rfl
      refine (outcome_forward _ _ _).trans ?_
      rw [hask]
      cases memory.fetch rip Encoding.maxSize with
      | error e => rfl
      | ok bytes => simp
    simp only [outcome_bind, Exec.outcome_access, hfetch]
    cases memory.fetch rip Encoding.maxSize with
    | error e => rfl
    | ok bytes =>
      simp only
      cases decode rip (byteList bytes) <;> rfl

/-- Where no instruction can be fetched, no access is made. -/
theorem events_of_fetch_error {m : Machine Memory} {f : Fault}
    (h : m.bus.instructionAt table m.cpu.rip = .error f) :
    ((watching .whole (runBatch table 1)).run m).1.2 = [] := by
  obtain ⟨s, b⟩ := m
  have hstep : outcome (Exec.step table) (⟨s, ⟨b, #[]⟩⟩ : Machine (Watched .whole)) =
      (.error f, ⟨s, ⟨b, #[]⟩⟩) := by
    show outcome (Exec.fetchInstruction table s.rip >>= fun i => Exec.retire i i.binding) _ = _
    rw [outcome_bind, Watched.outcome_fetchInstruction]
    rw [h]
  have hbatch : (runBatch table 1).run (⟨s, ⟨b, #[]⟩⟩ : Machine (Watched .whole)) =
      (⟨0, .fault f⟩, ⟨s, ⟨b, #[]⟩⟩) := by
    rw [runBatch, runFrom_succ, hstep]
  show (((runBatch table 1).run (⟨s, ⟨b, #[]⟩⟩ : Machine (Watched .whole))).2.bus.events).toList = []
  rw [hbatch]

/-- The accesses of a batch depend on the contents of registers only. -/
theorem watching_congr (n : Nat) {m m' : Machine Memory} (h : Recorder.Same m m') :
    ((watching .whole (runBatch table n)).run m).1 = ((watching .whole (runBatch table n)).run m').1 := by
  obtain ⟨s, b⟩ := m
  obtain ⟨s', b'⟩ := m'
  obtain ⟨hcpu, rfl : b = b'⟩ := h
  have hrel : Machine.Related Cpu.Equivalent (· = ·) (⟨s, ⟨b, #[]⟩⟩ : Machine (Watched .whole))
      ⟨s', ⟨b, #[]⟩⟩ := ⟨hcpu, rfl⟩
  obtain ⟨hresult, -, hbus⟩ :=
    runBatch_related (congruence_equivalent (Watched .whole)) Cpu.keeps_setRip table n hrel
  exact Prod.ext hresult (congrArg (fun w : Watched .whole => w.events.toList) hbus)

/-- So do entries. -/
theorem Machine.stepLog?_congr (index : UInt64) {m m' : Machine Memory} (h : Recorder.Same m m') :
    m.stepLog? table index = m'.stepLog? table index := by
  have hevents := congrArg Prod.snd (watching_congr table 1 h)
  have hsnapshot := Cpu.equivalent_iff.mp h.1
  rw [stepLog?, stepLog?, h.2, h.1.rip, hsnapshot, hevents]

end

/-! ### Recorders -/

namespace Recorder

/-- Writing a record leaves the machine and the number of steps. -/
theorem exists_write {r : Record} (h : r.Accepted) (s : Recording) :
    ∃ w, outcome (write r) s = (.ok (), ⟨s.machine, ⟨w, s.recorder.steps⟩⟩) ∧
      s.recorder.writer.Appends [r] w := by
  obtain ⟨m, writer, steps⟩ := s
  obtain ⟨w, hwrite, happends⟩ := TraceWriter.exists_write h writer
  refine ⟨w, ?_, happends⟩
  unfold write
  simp only [outcome_mk, run_run, hwrite]

/-- Records that are accepted are all written. -/
theorem exists_writeAll {rs : List Record} (h : ∀ r ∈ rs, r.Accepted) (s : Recording) :
    ∃ w, outcome (writeAll rs) s = (.ok (), ⟨s.machine, ⟨w, s.recorder.steps⟩⟩) ∧
      s.recorder.writer.Appends rs w := by
  induction rs generalizing s with
  | nil => exact ⟨s.recorder.writer, rfl, TraceWriter.appends_nil _⟩
  | cons r rs ih =>
    obtain ⟨w₁, hfirst, happends₁⟩ := exists_write (h r List.mem_cons_self) s
    obtain ⟨w, hrest, happends⟩ := ih (fun r hr => h r (List.mem_cons_of_mem _ hr))
      ⟨s.machine, ⟨w₁, s.recorder.steps⟩⟩
    exact ⟨w, outcome_bind_eq_ok_iff.mpr ⟨(), _, hfirst, hrest⟩, happends₁.append happends⟩

/-- The final registers and the end are appended. -/
theorem exists_finish (s : Recording) :
    ∃ w m, outcome finish s = (.ok (), ⟨m, ⟨w, s.recorder.steps⟩⟩) ∧ Same m s.machine ∧
      s.recorder.writer.Appends [.cpuState s.machine.cpu.snapshot, .endOfTrace] w := by
  have hsnapshot : outcome (onMachine takeSnapshot) s =
      (.ok s.machine.cpu.snapshot, ⟨⟨s.machine.cpu.materialize, s.machine.bus⟩, s.recorder⟩) := rfl
  obtain ⟨w₁, hstate, happends₁⟩ := exists_write
    (Record.accepted_cpuState s.machine.cpu.length_vectors_snapshot_le)
    ⟨⟨s.machine.cpu.materialize, s.machine.bus⟩, s.recorder⟩
  obtain ⟨w, hend, happends⟩ := exists_write Record.accepted_endOfTrace
    ⟨⟨s.machine.cpu.materialize, s.machine.bus⟩, ⟨w₁, s.recorder.steps⟩⟩
  refine ⟨w, ⟨s.machine.cpu.materialize, s.machine.bus⟩, ?_,
    ⟨Cpu.equivalent_materialize s.machine.cpu, rfl⟩, happends₁.append happends⟩
  exact outcome_bind_eq_ok_iff.mpr ⟨_, _, hsnapshot, outcome_bind_eq_ok_iff.mpr ⟨(), _, hstate, hend⟩⟩

/-- So recording a record is unobtrusive, -/
theorem unobtrusive_write {r : Record} (h : r.Accepted) : Unobtrusive (write r) fun _ => True := by
  intro s
  obtain ⟨w, hwrite, -⟩ := exists_write h s
  exact ⟨(), _, hwrite, trivial, same_refl s.machine⟩

/-- and so is finishing a trace. -/
theorem unobtrusive_finish : Unobtrusive finish fun _ => True := by
  intro s
  obtain ⟨w, m, hfinish, hsame, -⟩ := exists_finish s
  exact ⟨(), _, hfinish, trivial, hsame⟩

variable (table : IntrinsicTable)

/-- The step is recorded if the instruction can be fetched. -/
theorem exists_recordStep (s : Recording) :
    ∃ w m, outcome (recordStep table) s = (.ok (), ⟨m, ⟨w, s.recorder.steps⟩⟩) ∧ Same m s.machine ∧
      s.recorder.writer.Appends
        ((s.machine.stepLog? table s.recorder.steps).toList.map fun l => .step l.step) w := by
  have hfetch : outcome (onMachine (Exec.fetchInstruction table s.machine.cpu.rip).run) s =
      (.ok (s.machine.bus.instructionAt table s.machine.cpu.rip), s) := by
    rw [outcome_onMachine, run_run, Exec.outcome_fetchInstruction]
  rw [Machine.stepLog?]
  cases hinstruction : s.machine.bus.instructionAt table s.machine.cpu.rip with
  | error f =>
    rw [hinstruction] at hfetch
    refine ⟨s.recorder.writer, s.machine, ?_, same_refl _, TraceWriter.appends_nil _⟩
    exact outcome_bind_eq_ok_iff.mpr ⟨s, s, rfl, outcome_bind_eq_ok_iff.mpr ⟨_, s, hfetch, rfl⟩⟩
  | ok i =>
    rw [hinstruction] at hfetch
    -- the snapshot is taken first, which stores the numbers beside vector registers
    have hsnapshot : outcome (onMachine takeSnapshot) s =
        (.ok s.machine.cpu.snapshot, ⟨⟨s.machine.cpu.materialize, s.machine.bus⟩, s.recorder⟩) := rfl
    obtain ⟨w, hwrite, happends⟩ := exists_write
      (Record.accepted_step (s := ⟨s.recorder.steps, s.machine.cpu.rip, i.encoding.bytes, some i.text,
        s.machine.cpu.snapshot⟩) i.encoding.length_le i.utf8ByteSize_text_lt
        s.machine.cpu.length_vectors_snapshot_le)
      ⟨⟨s.machine.cpu.materialize, s.machine.bus⟩, s.recorder⟩
    refine ⟨w, ⟨s.machine.cpu.materialize, s.machine.bus⟩, ?_,
      ⟨Cpu.equivalent_materialize s.machine.cpu, rfl⟩, happends⟩
    exact outcome_bind_eq_ok_iff.mpr ⟨s, s, rfl, outcome_bind_eq_ok_iff.mpr ⟨_, s, hfetch,
      outcome_bind_eq_ok_iff.mpr ⟨s, s, rfl, outcome_bind_eq_ok_iff.mpr ⟨_, _, hsnapshot, hwrite⟩⟩⟩⟩

/-- **One instruction.** Its entry is appended, if it has one. -/
theorem exists_runOne {s : Recording} {m : Machine Memory} (h : Same s.machine m) :
    ∃ s', outcome (runOne table) s = (.ok ((Amd64.runBatch table 1).run m).1, s') ∧
      Same s'.machine ((Amd64.runBatch table 1).run m).2 ∧
      s'.recorder.steps = s.recorder.steps + 1 ∧
      s.recorder.writer.Appends
        ((m.stepLog? table s.recorder.steps).toList.flatMap StepLog.records) s'.recorder.writer := by
  -- first the step is written, then the machine moves on, then the accesses are written
  obtain ⟨w₁, m₁, hrecord, hsame₁, happends₁⟩ := exists_recordStep table s
  have hcount : outcome countStep ⟨m₁, ⟨w₁, s.recorder.steps⟩⟩ =
      (.ok (), ⟨m₁, ⟨w₁, s.recorder.steps + 1⟩⟩) := rfl
  obtain ⟨hresult, hsame⟩ := watching_related table 1 (hsame₁.trans h)
  have hevents : ((watching .whole (runBatch table 1)).run m₁).1.2 =
      ((watching .whole (runBatch table 1)).run m).1.2 :=
    congrArg Prod.snd (watching_congr table 1 (hsame₁.trans h))
  have haccepted : ∀ r ∈ (((watching .whole (runBatch table 1)).run m₁).1.2.map
      Record.memoryEvent), r.Accepted := by
    intro r hr
    obtain ⟨e, -, rfl⟩ := List.mem_map.mp hr
    exact Record.accepted_memoryEvent e
  obtain ⟨w, hwritten, happends⟩ := exists_writeAll haccepted
    ⟨((watching .whole (runBatch table 1)).run m₁).2, ⟨w₁, s.recorder.steps + 1⟩⟩
  refine ⟨⟨((watching .whole (runBatch table 1)).run m₁).2, ⟨w, s.recorder.steps + 1⟩⟩, ?_, hsame,
    rfl, ?_⟩
  · refine outcome_bind_eq_ok_iff.mpr ⟨(), _, hrecord, outcome_bind_eq_ok_iff.mpr ⟨(), _, hcount,
      outcome_bind_eq_ok_iff.mpr ⟨_, _, outcome_onMachine _ _, outcome_bind_eq_ok_iff.mpr
        ⟨(), _, hwritten, ?_⟩⟩⟩⟩
    rw [outcome_pure, hresult]
  · -- the accesses follow the step; where there is no step there are none
    have hall := happends₁.append happends
    rw [hevents, Machine.stepLog?_congr table s.recorder.steps h] at hall
    cases hinstruction : m.bus.instructionAt table m.cpu.rip with
    | error f =>
      rw [Machine.stepLog?_of_error hinstruction, events_of_fetch_error table hinstruction] at hall
      rw [Machine.stepLog?_of_error hinstruction]
      exact hall
    | ok i =>
      rw [Machine.stepLog?_of_ok hinstruction] at hall ⊢
      rw [Option.toList_some, List.flatMap_singleton]
      exact hall

/-! Recorded runs -/

/-- A recorded run is the recording of one instruction, repeated. -/
theorem runFrom_eq_repeatFrom (executed n : Nat) :
    runFrom table executed n = repeatFrom (runOne table) executed n := by
  induction n generalizing executed with
  | zero => rfl
  | succ n ih => simp only [runFrom, repeatFrom, ih]

/-- **Recorded runs compose.** -/
theorem run_add (n k : Nat) : run table (n + k) = inTurn (run table n) (run table k) := by
  simp only [run, runFrom_eq_repeatFrom]
  exact repeatFrom_add _ 0 n k

/-- A recorded run is one instruction, then the others. -/
theorem run_succ (n : Nat) : run table (n + 1) = inTurn (runOne table) (run table n) := by
  simp only [run, runFrom_eq_repeatFrom]
  exact repeatFrom_succ _ n

end Recorder

/-- Steps that were counted before were tried before. -/
theorem BatchResult.attempts_add (executed : Nat) (r : BatchResult) :
    (⟨executed + r.executed, r.exit⟩ : BatchResult).attempts = executed + r.attempts := by
  obtain ⟨more, exit⟩ := r
  cases exit <;> rfl

/-- Steps that were counted before were recorded before. -/
theorem BatchResult.recorded_add (executed : Nat) (r : BatchResult) (fetched : Bool) :
    (⟨executed + r.executed, r.exit⟩ : BatchResult).recorded fetched = executed + r.recorded fetched := by
  obtain ⟨more, exit⟩ := r
  cases exit with
  | fault f => exact Nat.add_assoc executed more fetched.toNat
  | completed | halted | syscall => rfl

/-- One instruction is one attempt. -/
theorem attempts_runBatch_one {σ : Type} [Bus σ] (table : IntrinsicTable) (m : Machine σ) :
    ((runBatch table 1).run m).1.attempts = 1 := by
  rw [runBatch, runFrom_succ]
  rcases outcome (Exec.step table) m with ⟨f | exit, m'⟩
  · rfl
  · cases exit <;> rfl

/-- **Recorded runs.** The entries of the run are appended, and the attempts are counted. -/
theorem Recorder.exists_run (table : IntrinsicTable) {s : Recording} {m : Machine Memory}
    (h : Same s.machine m) (n : Nat) :
    ∃ s', outcome (run table n) s = (.ok ((Amd64.runBatch table n).run m).1, s') ∧
      Same s'.machine ((Amd64.runBatch table n).run m).2 ∧
      s'.recorder.steps =
        s.recorder.steps + UInt64.ofNat ((Amd64.runBatch table n).run m).1.attempts ∧
      s.recorder.writer.Appends
        ((executionLog table s.recorder.steps n m).flatMap StepLog.records) s'.recorder.writer := by
  -- by induction on the number of instructions; the recorder goes on where the first one left it
  induction n generalizing s m with
  | zero => exact ⟨s, rfl, h, (UInt64.add_zero _).symm, TraceWriter.appends_nil _⟩
  | succ n ih =>
    obtain ⟨s₁, hone, hsame₁, hsteps₁, happends₁⟩ := exists_runOne table h
    have hattempts := attempts_runBatch_one table m
    rw [run_succ, runBatch_succ, run_inTurn, outcome_inTurn, hone, executionLog]
    by_cases hcompleted : ((runBatch table 1).run m).1.exit = .completed
    · obtain ⟨s', hrest, hsame, hsteps, happends⟩ := ih hsame₁
      simp only [hcompleted, if_true, hrest]
      refine ⟨s', rfl, hsame, ?_, ?_⟩
      · have hexecuted : ((runBatch table 1).run m).1.executed = 1 :=
          executed_of_completed table hcompleted
        rw [hsteps, hsteps₁, BatchResult.attempts_add, runBatch, hexecuted, UInt64.ofNat_add,
          ← UInt64.add_assoc]
        rfl
      · rw [List.flatMap_append, ← hsteps₁]
        exact happends₁.append happends
    · simp only [hcompleted, if_false]
      refine ⟨s₁, rfl, hsame₁, ?_, ?_⟩
      · rw [hsteps₁, hattempts]
        rfl
      · rw [List.append_nil]
        exact happends₁

/-- A recorded run ends like the batch, whatever the trace holds already, and leaves the same memory and an
    equivalent processor. -/
theorem Recorder.run_related (table : IntrinsicTable) {s : Recording} {m : Machine Memory}
    (h : Same s.machine m) (n : Nat) :
    ∃ s', outcome (run table n) s = (.ok ((Amd64.runBatch table n).run m).1, s') ∧
      Same s'.machine ((Amd64.runBatch table n).run m).2 := by
  obtain ⟨s', hrun, hsame, -⟩ := exists_run table h n
  exact ⟨s', hrun, hsame⟩

/-! ### What the entries say -/

/-- Whether an instruction can be fetched. -/
def Machine.fetches (table : IntrinsicTable) (m : Machine Memory) : Bool :=
  (m.bus.instructionAt table m.cpu.rip).isOk

section
variable {table : IntrinsicTable} {index : UInt64} {n k : Nat} {m : Machine Memory}

/-- Without an instruction there is no step. -/
theorem runBatch_of_fetch_error {f : Fault} (h : m.bus.instructionAt table m.cpu.rip = .error f) (n : Nat) :
    (runBatch table (n + 1)).run m = (⟨0, .fault f⟩, m) := by
  rw [runBatch, runFrom_succ, Exec.outcome_step, h]

/-- The batch goes on where its first step proceeds. -/
theorem runBatch_succ_of_completed (h : ((runBatch table 1).run m).1.exit = .completed) (n : Nat) :
    (runBatch table (n + 1)).run m =
      (⟨1 + ((runBatch table n).run (m.after table 1)).1.executed,
        ((runBatch table n).run (m.after table 1)).1.exit⟩,
        ((runBatch table n).run (m.after table 1)).2) := by
  have hexecuted : ((runBatch table 1).run m).1.executed = 1 := executed_of_completed table h
  rw [runBatch_succ, run_inTurn, if_pos h, hexecuted]
  rfl

/-- One more instruction after the first one. -/
theorem after_succ_of_completed (h : ((runBatch table 1).run m).1.exit = .completed) (n : Nat) :
    m.after table (n + 1) = (m.after table 1).after table n := by
  rw [Machine.after, runBatch_succ_of_completed h n]
  rfl

/-- A run that stops after its first instruction is the run of this instruction. -/
theorem runBatch_succ_of_stopped (h : ((runBatch table 1).run m).1.exit ≠ .completed) (n : Nat) :
    (runBatch table (n + 1)).run m = (runBatch table 1).run m := by
  rw [runBatch_succ, run_inTurn, if_neg h]

/-- What cannot be fetched ends the log. -/
theorem executionLog_of_fetch_error {f : Fault}
    (h : m.bus.instructionAt table m.cpu.rip = .error f) : executionLog table index n m = [] := by
  cases n with
  | zero => rfl
  | succ n =>
    have hstopped : ((runBatch table 1).run m).1.exit ≠ .completed := by
      rw [runBatch_of_fetch_error h 0]
      exact nofun
    rw [executionLog, Machine.stepLog?_of_error h, if_neg hstopped]
    rfl

/-- **Entries.** Entry `k` is that of the machine after `k` instructions, all of which were executed. -/
theorem getElem?_executionLog {l : StepLog} (h : (executionLog table index n m)[k]? = some l) :
    ((runBatch table k).run m).1 = ⟨k, .completed⟩ ∧
      (m.after table k).stepLog? table (index + UInt64.ofNat k) = some l := by
  -- by induction on the number of instructions; the entry is the first one or one of the rest
  induction n generalizing index k m with
  | zero => cases h
  | succ n ih =>
    cases hinstruction : m.bus.instructionAt table m.cpu.rip with
    | error f =>
      rw [executionLog_of_fetch_error hinstruction] at h
      cases h
    | ok i =>
      rw [executionLog, Machine.stepLog?_of_ok hinstruction, Option.toList_some,
        List.singleton_append] at h
      cases k with
      | zero =>
        refine ⟨rfl, ?_⟩
        rw [← h]
        exact (congrArg (m.stepLog? table) (UInt64.add_zero index)).trans
          (Machine.stepLog?_of_ok hinstruction)
      | succ k =>
        rw [List.getElem?_cons_succ] at h
        by_cases hcompleted : ((runBatch table 1).run m).1.exit = .completed
        · rw [if_pos hcompleted] at h
          obtain ⟨hbefore, hentry⟩ := ih h
          have hbatch := runBatch_succ_of_completed hcompleted k
          have hindex : index + 1 + UInt64.ofNat k = index + UInt64.ofNat (k + 1) := by
            rw [UInt64.ofNat_add, UInt64.add_assoc, UInt64.add_comm 1]
            rfl
          -- the rest begins one step and one index further on
          rw [hindex, ← after_succ_of_completed hcompleted k] at hentry
          refine ⟨?_, hentry⟩
          rw [hbatch, hbefore, Nat.add_comm]
        · rw [if_neg hcompleted] at h
          cases h

/-- **Number of entries.** There is one for each instruction that was executed, and one for an instruction
    that was fetched and was at fault. -/
theorem length_executionLog (table : IntrinsicTable) (index : UInt64) (n : Nat) (m : Machine Memory) :
    (executionLog table index n m).length =
      ((runBatch table n).run m).1.recorded
        ((m.after table ((runBatch table n).run m).1.executed).fetches table) := by
  induction n generalizing index m with
  | zero => rfl
  | succ n ih =>
    cases hinstruction : m.bus.instructionAt table m.cpu.rip with
    | error f =>
      have hfetches : m.fetches table = false := by
        rw [Machine.fetches, hinstruction]
        rfl
      have hafter : m.after table 0 = m := rfl
      rw [executionLog_of_fetch_error hinstruction, runBatch_of_fetch_error hinstruction n, hafter,
        hfetches]
      rfl
    | ok i =>
      have hfetches : m.fetches table = true := by
        rw [Machine.fetches, hinstruction]
        rfl
      rw [executionLog, Machine.stepLog?_of_ok hinstruction, Option.toList_some,
        List.singleton_append, List.length_cons]
      by_cases hcompleted : ((runBatch table 1).run m).1.exit = .completed
      · -- the entries behind the first are those of the rest of the batch
        obtain ⟨rest, hrest⟩ : ∃ rest, rest = ((runBatch table n).run (m.after table 1)).1 := ⟨_, rfl⟩
        have hbatch : ((runBatch table (n + 1)).run m).1 = ⟨1 + rest.executed, rest.exit⟩ := by
          rw [runBatch_succ_of_completed hcompleted n, hrest]
        have hafter : m.after table (1 + rest.executed) = (m.after table 1).after table rest.executed := by
          rw [Nat.add_comm]
          exact after_succ_of_completed hcompleted rest.executed
        rw [if_pos hcompleted, ih, hbatch, BatchResult.recorded_add, hafter, ← hrest, Nat.add_comm]
      · rw [if_neg hcompleted, runBatch_succ_of_stopped hcompleted n, List.length_nil]
        -- a step that did not proceed was executed, or it was at fault
        rw [runBatch, runFrom_succ] at hcompleted ⊢
        generalize outcome (Exec.step table) m = p at hcompleted ⊢
        obtain ⟨f | exit, m'⟩ := p
        · have hafter : m.after table 0 = m := rfl
          rw [hafter, hfetches]
          rfl
        · cases exit with
          | proceed => exact (hcompleted rfl).elim
          | halted | syscall => rfl

end

end Amd64
