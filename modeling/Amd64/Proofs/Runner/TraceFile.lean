import Amd64.Proofs.Runner.Loading
import Amd64.Proofs.Runner.Slices
import Amd64.Proofs.Trace.Execution

namespace Amd64

/-!
# What a runner's trace says

A trace begins with the location of the image.  Then come the entries of the run, the message about an exit if
there was one, the final registers and the end of the trace, whatever became of the guest.

* `stopRecords`             — the message about an exit, if there is one;
* `Session.Traces`          — a session with a recorder, compared to one without;
* `Session.exists_complete` — what is recorded from the beginning to the end;
* `trace_logs_execution`    — calls of recorders, and traces of runners.
-/

/-- The record of how the guest stopped, of which there is none unless it exited. -/
def stopRecords (rip : UInt64) : Except RunnerError (Stop × Nat) → List Record
  | .ok (.exit status, _) => [.systemLog ⟨rip, 1, "exit(" ++ toString status.toNat ++ ")"⟩]
  | _ => []

namespace Session

/-- The session `s` is like `t` and has a recorder of so many steps, which appended the records to `w`. -/
structure Traces (w : TraceWriter) (rs : List Record) (steps : UInt64) (t s : Session) : Prop where
  same : s.Same t
  recorder : ∃ w', s.recorder = some ⟨w', steps⟩ ∧ w.Appends rs w'

section
variable {w : TraceWriter} {rs : List Record} {steps : UInt64} {t s : Session}

/-- A record that is accepted goes behind the others. -/
theorem Traces.exists_write {r : Record} (h : Traces w rs steps t s) (hr : r.Accepted) :
    ∃ s', outcome (onRecorder (Recorder.write r)) s = (.ok (), s') ∧
      Traces w (rs ++ [r]) steps t s' := by
  obtain ⟨m, table, recorder⟩ := s
  obtain ⟨hsame, w', hrecorder, happends⟩ := h
  obtain rfl : recorder = some ⟨w', steps⟩ := hrecorder
  obtain ⟨w'', hwrite, hmore⟩ := Recorder.exists_write hr ⟨m, ⟨w', steps⟩⟩
  refine ⟨⟨m, table, some ⟨w'', steps⟩⟩, ?_, hsame, w'', rfl, happends.append hmore⟩
  unfold onRecorder
  simp only [outcome_mk, run_run, hwrite]

/-- At the end go the last state and the end of the trace. -/
theorem Traces.exists_finish (h : Traces w rs steps t s) :
    ∃ s', outcome (onRecorder Recorder.finish) s = (.ok (), s') ∧
      Traces w (rs ++ [.cpuState t.machine.cpu.snapshot, .endOfTrace]) steps t s' := by
  obtain ⟨m, table, recorder⟩ := s
  obtain ⟨hsame, w', hrecorder, happends⟩ := h
  obtain rfl : recorder = some ⟨w', steps⟩ := hrecorder
  obtain ⟨w'', m', hfinish, hsame', hmore⟩ := Recorder.exists_finish ⟨m, ⟨w', steps⟩⟩
  -- the snapshot is that of the session without a recorder
  have hsnapshot : m.cpu.snapshot = t.machine.cpu.snapshot := Cpu.equivalent_iff.mp hsame.2.1
  rw [← hsnapshot]
  refine ⟨⟨m', table, some ⟨w'', steps⟩⟩, ?_, ⟨hsame.1, hsame'.trans hsame.2⟩, w'', rfl,
    happends.append hmore⟩
  unfold onRecorder
  simp only [outcome_mk, run_run, hfinish]

/-- A slice appends the entries of its batch. -/
theorem Traces.exists_runSlice (h : Traces w rs steps t s) (n : Nat) :
    ∃ s', outcome (runSlice n) s = (.ok ((runBatch t.table n).run t.machine).1, s') ∧
      Traces w (rs ++ (executionLog t.table steps n t.machine).flatMap StepLog.records)
        (steps + UInt64.ofNat ((runBatch t.table n).run t.machine).1.attempts)
        ⟨((runBatch t.table n).run t.machine).2, t.table, t.recorder⟩ s' := by
  obtain ⟨m, table, recorder⟩ := s
  obtain ⟨⟨htable, hsame⟩, w', hrecorder, happends⟩ := h
  obtain rfl : recorder = some ⟨w', steps⟩ := hrecorder
  obtain rfl : table = t.table := htable
  obtain ⟨⟨m', ⟨w'', steps'⟩⟩, hrun, hsame', hsteps, hmore⟩ :=
    Recorder.exists_run t.table (s := ⟨m, ⟨w', steps⟩⟩) hsame n
  refine ⟨⟨m', t.table, some ⟨w'', steps'⟩⟩, ?_, ⟨rfl, hsame'⟩, w'', ?_, happends.append hmore⟩
  · unfold runSlice
    simp only [outcome_mk, run_run, hrun]
  · show some (⟨w'', steps'⟩ : Recorder) = _
    rw [show steps' = _ from hsteps]

/-- An exit is logged and ends the session; other system calls are errors. -/
theorem outcome_syscall (s : Session) :
    outcome syscall s =
      if s.machine.cpu.gpr .rax = 60 ∨ s.machine.cpu.gpr .rax = 231 then
        match outcome (onRecorder (Recorder.write (.systemLog ⟨s.machine.cpu.rip, 1,
            "exit(" ++ toString (s.machine.cpu.gpr .rdi).toNat ++ ")"⟩))) s with
        | (.ok _, s') => (.ok (.exit (s.machine.cpu.gpr .rdi)), s')
        | (.error e, s') => (.error e, s')
      else
        (.error (.unsupportedSyscall (s.machine.cpu.gpr .rax) (s.machine.cpu.rip - 2)), s) := by
  unfold syscall
  rw [outcome_bind, outcome_get]
  by_cases hexit : s.machine.cpu.gpr .rax = 60 ∨ s.machine.cpu.gpr .rax = 231
  · simp only [hexit, if_true, outcome_bind, outcome_pure]
    rcases outcome (onRecorder _) s with ⟨e | ⟨⟩, s'⟩ <;> rfl
  · simp only [hexit, if_false, outcome_throw]

/-- What ends a run appends the message about an exit, if there is one. -/
theorem Traces.exists_conclude (h : Traces w rs steps t s) (hnone : t.recorder = none) (total : Nat)
    (exit : BatchExit) :
    ∃ s', outcome (conclude total exit) s = ((outcome (conclude total exit) t).1, s') ∧
      Traces w (rs ++ stopRecords t.machine.cpu.rip (outcome (conclude total exit) t).1) steps t s' := by
  have hunchanged : Traces w (rs ++ []) steps t s := by
    rw [List.append_nil]
    exact h
  -- only a system call may write a record, and only when it is an exit
  cases exit with
  | completed => exact ⟨s, rfl, hunchanged⟩
  | halted => exact ⟨s, rfl, hunchanged⟩
  | fault f => exact ⟨s, rfl, hunchanged⟩
  | syscall =>
    have hgpr := h.same.2.1.gpr
    have hrip := h.same.2.1.rip
    -- without a recorder nothing is written
    have hsilent : ∀ r, outcome (onRecorder (Recorder.write r)) t = (.ok (), t) := by
      obtain ⟨m, table, recorder⟩ := t
      obtain rfl : recorder = none := hnone
      exact fun r => rfl
    rw [conclude, outcome_bind, outcome_bind, outcome_syscall, outcome_syscall, hgpr, hrip]
    by_cases hexit : t.machine.cpu.gpr .rax = 60 ∨ t.machine.cpu.gpr .rax = 231
    · obtain ⟨s', hwrite, htraces⟩ := h.exists_write (Record.accepted_systemLog
        (l := ⟨t.machine.cpu.rip, 1, _⟩) (utf8ByteSize_exit_lt (t.machine.cpu.gpr .rdi)))
      simp only [hexit, if_true, hwrite, hsilent]
      exact ⟨s', rfl, htraces⟩
    · simp only [hexit, if_false]
      exact ⟨s, rfl, hunchanged⟩

end

/-- **Traces of runners.** From the beginning to the end, and whatever becomes of the guest. -/
theorem exists_complete (o : Options) {s : Session} (hnone : s.recorder = none)
    (hlocation : (Record.location o.location).Accepted) :
    ∃ w, (({ s with recorder := some .empty } : Session).complete o).trace = some w.output ∧
      TraceWriter.empty.Appends
        (.location o.location ::
          ((executionLog s.table 0 o.maxInsts.toNat s.machine).flatMap StepLog.records ++
            stopRecords ((runBatch s.table o.maxInsts.toNat).run s.machine).2.cpu.rip
              (outcome (run o.maxInsts.toNat) s).1 ++
            [.cpuState ((runBatch s.table o.maxInsts.toNat).run s.machine).2.cpu.snapshot,
              .endOfTrace])) w := by
  obtain ⟨m, table, recorder⟩ := s
  obtain rfl : recorder = none := hnone
  have hslice : 0 < sliceBudget := by decide
  have hbegin : Traces .empty [] 0 ⟨m, table, none⟩ ⟨m, table, some .empty⟩ :=
    ⟨⟨rfl, Recorder.same_refl m⟩, .empty, rfl, TraceWriter.appends_nil _⟩
  obtain ⟨s₁, hs₁, htraces₁⟩ := hbegin.exists_write hlocation
  -- the run is one slice, and then what its end means
  obtain ⟨s₂, hs₂, htraces₂⟩ := htraces₁.exists_runSlice o.maxInsts.toNat
  obtain ⟨s₃, hs₃, htraces₃⟩ := htraces₂.exists_conclude rfl
    ((runBatch table o.maxInsts.toNat).run m).1.executed
    ((runBatch table o.maxInsts.toNat).run m).1.exit
  obtain ⟨s₄, hs₄, htraces₄⟩ := htraces₃.exists_finish
  have hrun : outcome (run o.maxInsts.toNat) s₁ =
      ((outcome (run o.maxInsts.toNat) ⟨m, table, none⟩).1, s₃) := by
    rw [run, runInSlices_eq hslice, runInSlices_eq hslice, runWhole_of_none, runWhole, outcome_bind,
      hs₂]
    exact hs₃
  obtain ⟨w, hrecorder, happends⟩ := htraces₄.recorder
  refine ⟨w, ?_, ?_⟩
  · simp only [complete, run_run, hs₁, hrun, hs₄, hrecorder]
    cases (outcome (run o.maxInsts.toNat) ⟨m, table, none⟩).1 with
    | error e => rfl
    | ok p =>
      obtain ⟨stop, executed⟩ := p
      cases stop <;> rfl
  · rw [run, runInSlices_eq hslice, runWhole_of_none]
    simpa only [List.nil_append, List.singleton_append, List.cons_append] using happends

end Session

/-! ### What is read of a trace -/

/-- A name of a file is not empty. -/
theorem fileName?_ne (path : String) : fileName? path ≠ some "" := by
  intro h
  unfold fileName? at h
  simp only at h
  split at h
  · cases h
  · have hmem := List.mem_of_getLast? h
    simp at hmem

/-- All that a runner records can be read. -/
theorem Session.canonical_complete (o : Options) {s : Session} (h : s.machine.bus.table.WellFormed)
    (rip : UInt64) (result : Except RunnerError (Stop × Nat)) (state : Snapshot) :
    ∀ r ∈ .location o.location ::
        ((executionLog s.table 0 o.maxInsts.toNat s.machine).flatMap StepLog.records ++
          stopRecords rip result ++ [.cpuState state, .endOfTrace]), r.Canonical := by
  intro r hr
  obtain rfl | hr := List.mem_cons.mp hr
  · exact ⟨fileName?_ne o.image, nofun⟩
  obtain hr | hend := List.mem_append.mp hr
  · obtain hlog | hstop := List.mem_append.mp hr
    · exact canonical_executionLog s.table 0 o.maxInsts.toNat h r hlog
    · unfold stopRecords at hstop
      split at hstop
      · obtain rfl := List.mem_singleton.mp hstop
        trivial
      · cases hstop
  · simp only [List.mem_cons, List.not_mem_nil, or_false] at hend
    obtain rfl | rfl := hend <;> trivial

/-- **Execution logs.** What a recorded run appends to a trace reads as a log of the run: a step for each
    instruction that was executed, and for one that was fetched and was at fault, with the registers and the
    bytes before it and its accesses behind it.  Over several calls of a recorder the indices increase.  And
    the trace of a runner reads as the location, a log of the run, the message about an exit if the guest
    exited, the final registers and the end, whatever became of the guest. -/
theorem trace_logs_execution :
    (∀ (table : IntrinsicTable) (n : Nat) (m : Machine Memory) (recorder : Recorder),
      m.cpu.Reachable → m.bus.Reachable →
        ∃ (s' : Recording) (bs : List UInt8) (logs : List StepLog),
          outcome (Recorder.run table n) ⟨m, recorder⟩ = (.ok ((runBatch table n).run m).1, s') ∧
          byteList s'.recorder.writer.output = byteList recorder.writer.output ++ bs ∧
          readTrace 1 bs = ((logs.flatMap StepLog.records).map .ok, []) ∧
          IsExecutionLog table recorder.steps n m logs) ∧
    (∀ (recorder : Recorder) (calls : List RecordedCall),
      (∀ c ∈ calls, c.machine.bus.Reachable) →
      recorder.steps.toNat + (calls.map RecordedCall.attempts).sum < UInt64.size →
        ∃ (bs : List UInt8) (logs : List StepLog),
          byteList (calls.foldl Recorder.afterCall recorder).writer.output =
            byteList recorder.writer.output ++ bs ∧
          readTrace 1 bs = ((logs.flatMap StepLog.records).map .ok, []) ∧
          logs.Pairwise fun l l' => l.step.index < l'.step.index) ∧
    ∀ (o : Options) (image : Except String ByteArray) (name : String) (s : Session),
      (Record.location o.location).Accepted → o.session image = .ok s →
        ∃ (trace : ByteArray) (logs : List StepLog),
          (runImage { o with trace := some name } image none).trace = some trace ∧
          readTrace 1 (byteList trace) =
            ((.location o.location :: (logs.flatMap StepLog.records ++
              stopRecords ((runBatch s.table o.maxInsts.toNat).run s.machine).2.cpu.rip
                (outcome (Session.run o.maxInsts.toNat) s).1 ++
              [.cpuState ((runBatch s.table o.maxInsts.toNat).run s.machine).2.cpu.snapshot,
                .endOfTrace])).map .ok, []) ∧
          IsExecutionLog s.table 0 o.maxInsts.toNat s.machine logs := by
  refine ⟨fun table n m recorder hcpu hbus => ?_, fun recorder calls hcalls hfit => ?_,
    fun o image name s hlocation hsession => ?_⟩
  -- one call: its log is written, and what was written is read back
  · obtain ⟨s', hrun, -, -, happends⟩ :=
      Recorder.exists_run table (s := ⟨m, recorder⟩) (Recorder.same_refl m) n
    obtain ⟨bs, hbs, hyields⟩ :=
      happends.yields (canonical_executionLog table recorder.steps n hbus.wellFormed)
    refine ⟨s', bs, executionLog table recorder.steps n m, hrun, hbs, ?_, ?_⟩
    · exact hyields.readTrace_eq Nat.one_ne_zero
    · exact isExecutionLog_executionLog table recorder.steps n hcpu.reserved hbus.wellFormed
  -- several calls: their indices go up as long as the counter does not wrap
  · have hcanonical : ∀ r ∈ (callsLog recorder.steps calls).flatMap StepLog.records, r.Canonical :=
      canonical_callsLog fun c hc => (hcalls c hc).wellFormed
    obtain ⟨bs, hbs, hyields⟩ := (recorder.exists_afterCalls calls).yields hcanonical
    refine ⟨bs, callsLog recorder.steps calls, hbs, ?_, pairwise_callsLog hfit⟩
    exact hyields.readTrace_eq Nat.one_ne_zero
  -- the runner: a location in front, and the end with the last state behind
  · obtain ⟨hcpu, hbus, hnone⟩ := Options.reachable_session hsession
    obtain ⟨w, htrace, happends⟩ := Session.exists_complete o hnone hlocation
    obtain ⟨bs, hbs, hyields⟩ :=
      happends.yields (Session.canonical_complete o hbus.wellFormed _ _ _)
    have houtput : byteList w.output = bs := hbs
    refine ⟨w.output, executionLog s.table 0 o.maxInsts.toNat s.machine, ?_, ?_, ?_⟩
    · rw [runImage, o.session_trace (some name) image, hsession]
      simp only [Session.report, Session.complete_trace]
      exact htrace
    · rw [houtput]
      exact hyields.readTrace_eq Nat.one_ne_zero
    · exact isExecutionLog_executionLog s.table 0 o.maxInsts.toNat hcpu.reserved hbus.wellFormed

/-- A string instruction that overruns what is mapped has an entry each time that it is tried; and the trace
    of a guest that is loaded reads from its location to its end. -/
theorem trace_logs_execution_smallOptions :
    (∃ (bs : List UInt8) (l : StepLog),
      readTrace 1 bs = (l.records.map .ok, []) ∧ l.Describes ⟨[]⟩ 0 overrunning) ∧
    (∃ (bs : List UInt8) (logs : List StepLog),
      byteList ([(⟨⟨[]⟩, overrunning, 1⟩ : RecordedCall), ⟨⟨[]⟩, overrunning, 1⟩].foldl
        Recorder.afterCall .empty).writer.output = bs ∧
      readTrace 1 bs = ((logs.flatMap StepLog.records).map .ok, []) ∧
      logs.Pairwise fun l l' => l.step.index < l'.step.index) ∧
    ∃ (s : Session) (trace : ByteArray) (records : List Record) (state : Snapshot),
      smallOptions.session (.ok exitingImage) = .ok s ∧
      (runImage { smallOptions with trace := some "t" } (.ok exitingImage) none).trace = some trace ∧
      readTrace 1 (byteList trace) =
        ((.location smallOptions.location :: (records ++ [.cpuState state, .endOfTrace])).map .ok,
          []) := by
  obtain ⟨hcall, hcalls, hrunner⟩ := trace_logs_execution
  have hbus : overrunning.bus.Reachable := ⟨_, _, rfl⟩
  have hcpu : overrunning.cpu.Reachable :=
    (((Cpu.Reachable.initial.setRip _).setGpr _ _).setGpr _ _).setGpr _ _
  refine ⟨?_, ?_, ?_⟩
  · -- the instruction was fetched and is at fault, so there is one entry
    obtain ⟨s', bs, logs, -, -, hread, hlog⟩ := hcall ⟨[]⟩ 1 overrunning .empty hcpu hbus
    have hexecuted : ((runBatch ⟨[]⟩ 1).run overrunning).1.executed = 0 := by decide +kernel
    have hcount : ((runBatch ⟨[]⟩ 1).run overrunning).1.recorded (overrunning.fetches ⟨[]⟩) = 1 := by
      decide +kernel
    have hlength : logs.length = 1 := by
      rw [hlog.length, hexecuted]
      exact hcount
    obtain ⟨l, rfl⟩ := List.length_eq_one_iff.mp hlength
    rw [List.flatMap_singleton] at hread
    exact ⟨bs, l, hread, hlog.describes 0 l rfl⟩
  · have hattempts : (⟨⟨[]⟩, overrunning, 1⟩ : RecordedCall).attempts = 1 := attempts_runBatch_one _ _
    obtain ⟨bs, logs, hbs, hread, hpairwise⟩ := hcalls .empty
      [⟨⟨[]⟩, overrunning, 1⟩, ⟨⟨[]⟩, overrunning, 1⟩] (by simp [hbus]) (by
        simp only [List.map_cons, List.map_nil, hattempts]
        decide)
    exact ⟨bs, logs, hbs, hread, hpairwise⟩
  · have hfilename : (smallOptions.location.filename.getD "").utf8ByteSize < UInt16.size := by
      rw [Options.location, fileName?_smallOptions]
      decide
    have hlocation : (Record.location smallOptions.location).Accepted :=
      Record.accepted_location hfilename (by decide)
    have hloaded : (smallOptions.session (.ok exitingImage)).toOption.isSome := by decide +kernel
    cases hsession : smallOptions.session (.ok exitingImage) with
    | error e =>
      rw [hsession] at hloaded
      cases hloaded
    | ok s =>
      obtain ⟨trace, logs, htrace, hread, -⟩ :=
        hrunner smallOptions (.ok exitingImage) "t" s hlocation hsession
      exact ⟨s, trace, _, _, rfl, htrace, hread⟩

end Amd64
