import Amd64.Proofs.Trace.StepLog
import Amd64.Runner.Session

namespace Amd64

/-!
# Runs with and without a trace

What a runner does is the same whether it records or not: how the guest stops, after how many instructions,
the exit code and what is printed.

* `Session.Same`           — sessions with equivalent machines, whatever they record;
* `Session.alike_runSlice`, `Session.alike_run` — they run alike;
* `Session.seen_complete`  — and their reports say the same;
* `recording_invisible`    — a recorded run, a session and a command line against their like without a trace.
-/

namespace Session

/-- The same routines, equivalent processors and the same memory. -/
def Same (s t : Session) : Prop :=
  s.table = t.table ∧ Recorder.Same s.machine t.machine

theorem Same.trans {s t u : Session} (h : s.Same t) (h' : t.Same u) : s.Same u :=
  ⟨h.1.trans h'.1, h.2.trans h'.2⟩

theorem Same.symm {s t : Session} (h : s.Same t) : t.Same s :=
  ⟨h.1.symm, h.2.symm⟩

/-- What is recorded changes nothing, with or without a recorder. -/
theorem onRecorder_same {act : RecordingM Unit} (h : Recorder.Unobtrusive act fun _ => True)
    (s : Session) : ∃ s', outcome (onRecorder act) s = (.ok (), s') ∧ s'.Same s := by
  obtain ⟨m, table, recorder⟩ := s
  cases recorder with
  | none => exact ⟨⟨m, table, none⟩, rfl, rfl, Recorder.same_refl m⟩
  | some recorder =>
    obtain ⟨_, ⟨m', recorder'⟩, hact, -, hsame⟩ := h ⟨m, recorder⟩
    refine ⟨⟨m', table, some recorder'⟩, ?_, rfl, hsame⟩
    unfold onRecorder
    simp only [outcome_mk, run_run, hact]

/-- What the recorder does is not seen by the session. -/
theorem alike_onRecorder {act : RecordingM Unit} (h : Recorder.Unobtrusive act fun _ => True) :
    Alike Same (onRecorder act) (onRecorder act) := by
  intro s t hst
  obtain ⟨s', hs, hs'⟩ := onRecorder_same h s
  obtain ⟨t', ht, ht'⟩ := onRecorder_same h t
  rw [hs, ht]
  exact ⟨rfl, (hs'.trans hst).trans ht'.symm⟩

/-- A slice is a batch, recorded or not. -/
theorem runSlice_eq (n : Nat) (s : Session) :
    ∃ s', outcome (runSlice n) s = (.ok ((runBatch s.table n).run s.machine).1, s') ∧
      s'.table = s.table ∧ Recorder.Same s'.machine ((runBatch s.table n).run s.machine).2 := by
  obtain ⟨m, table, recorder⟩ := s
  cases recorder with
  | none =>
    exact ⟨⟨((runBatch table n).run m).2, table, none⟩, rfl, rfl, Recorder.same_refl _⟩
  | some recorder =>
    obtain ⟨⟨m', recorder'⟩, hrun, hsame⟩ :=
      Recorder.run_related table (s := ⟨m, recorder⟩) (Recorder.same_refl m) n
    refine ⟨⟨m', table, some recorder'⟩, ?_, rfl, hsame⟩
    unfold runSlice
    simp only [outcome_mk, run_run, hrun]

/-- A slice is the same with and without a recorder. -/
theorem alike_runSlice (n : Nat) : Alike Same (runSlice n) (runSlice n) := by
  rintro s t ⟨htable, hmachine⟩
  obtain ⟨s', hs, hstable, hs'⟩ := runSlice_eq n s
  obtain ⟨t', ht, httable, ht'⟩ := runSlice_eq n t
  have hrun := runBatch_related (congruence_equivalent Memory) Cpu.keeps_setRip t.table n hmachine
  rw [htable] at hs hs' hstable
  rw [hs, ht]
  exact ⟨congrArg Except.ok hrun.1, hstable.trans httable.symm, (hs'.trans hrun.2).trans ht'.symm⟩

/-- The message about the end of a guest fits into a trace. -/
theorem utf8ByteSize_exit_lt (status : UInt64) :
    ("exit(" ++ toString status.toNat ++ ")").utf8ByteSize < UInt16.size := by
  have hsize : UInt16.size = 65536 := rfl
  have hparts : "exit(".utf8ByteSize = 5 ∧ ")".utf8ByteSize = 1 := by decide
  have hnumber := utf8ByteSize_toString_le status.toNat_lt
  rw [String.utf8ByteSize_append, String.utf8ByteSize_append]
  omega

/-- A system call is the same with and without a recorder. -/
theorem alike_syscall : Alike Same syscall syscall := by
  refine alike_get fun s t hst => ?_
  have hgpr := hst.2.1.gpr
  have hrip := hst.2.1.rip
  simp only [hgpr, hrip]
  refine Alike.ite ((alike_onRecorder ?_).bind fun _ => alike_pure _) (alike_throw _)
  exact Recorder.unobtrusive_write (Record.accepted_systemLog (utf8ByteSize_exit_lt _))

/-- The end of a slice is the same with and without a recorder. -/
theorem alike_conclude (total : Nat) (exit : BatchExit) :
    Alike Same (conclude total exit) (conclude total exit) := by
  cases exit with
  | completed => exact alike_pure _
  | halted => exact alike_pure _
  | syscall => exact alike_syscall.bind fun _ => alike_pure _
  | fault f => exact alike_throw _

/-- All slices are the same, by induction on their number. -/
theorem alike_runFrom (slice limit n total : Nat) :
    Alike Same (runFrom slice limit n total) (runFrom slice limit n total) := by
  induction n generalizing total with
  | zero => exact alike_pure _
  | succ n ih =>
    refine Alike.ite (alike_pure _) ((alike_runSlice _).bind fun result => ?_)
    exact Alike.ite (ih _) (alike_conclude _ _)

/-- **Sessions.** Guests stop in the same way and after as many instructions. -/
theorem alike_run (limit : Nat) : Alike Same (run limit) (run limit) :=
  alike_runFrom sliceBudget limit _ 0

end Session

/-! ### Reports -/

/-- What one sees of a run: the exit code and what is printed. -/
def RunReport.seen (r : RunReport) : UInt8 × String × String :=
  (r.code, r.stdout, r.stderr)

/-- Equivalent processors are reported alike. -/
theorem RunReport.seen_success (o : Options) {s t : Cpu} (h : s.Equivalent t) (stop : Stop)
    (executed : Nat) (trace trace' : Option ByteArray) :
    (success o s stop executed trace).seen = (success o t stop executed trace').seen := by
  have hsnapshot := Cpu.equivalent_iff.mp h
  cases stop <;> simp only [seen, success, hsnapshot]

namespace Session

/-- **Reports.** Sessions that are the same but for what they record are reported alike, if the record at
    the beginning of a trace can be written. -/
theorem seen_complete (o : Options) (hlocation : (Record.location o.location).Accepted)
    {s t : Session} (h : s.Same t) : (s.complete o).seen = (t.complete o).seen := by
  obtain ⟨s₁, hs₁, hsame₁⟩ := onRecorder_same (Recorder.unobtrusive_write hlocation) s
  obtain ⟨t₁, ht₁, hsame₁'⟩ := onRecorder_same (Recorder.unobtrusive_write hlocation) t
  have hbegun := (hsame₁.trans h).trans hsame₁'.symm
  -- each side goes on with its own recorder, and finishes its own trace
  obtain ⟨e, s₂, t₂, hs₂, ht₂, hrun⟩ | ⟨⟨stop, executed⟩, s₂, t₂, hs₂, ht₂, hrun⟩ :=
    (alike_run o.maxInsts.toNat).outcomes hbegun
  · obtain ⟨s₃, hs₃, -⟩ := onRecorder_same Recorder.unobtrusive_finish s₂
    obtain ⟨t₃, ht₃, -⟩ := onRecorder_same Recorder.unobtrusive_finish t₂
    simp only [complete, run_run, hs₁, ht₁, hs₂, ht₂, hs₃, ht₃]
    rfl
  · obtain ⟨s₃, hs₃, hs⟩ := onRecorder_same Recorder.unobtrusive_finish s₂
    obtain ⟨t₃, ht₃, ht⟩ := onRecorder_same Recorder.unobtrusive_finish t₂
    have hend : s₃.Same t₃ := (hs.trans hrun).trans ht.symm
    simp only [complete, run_run, hs₁, ht₁, hs₂, ht₂, hs₃, ht₃]
    exact RunReport.seen_success o hend.2.1 stop executed _ _

end Session

/-- What is loaded does not depend on the trace. -/
theorem Options.session_trace (o : Options) (trace : Option String)
    (image : Except String ByteArray) :
    ({ o with trace := trace } : Options).session image = o.session image := by
  cases image with
  | error reason => rfl
  | ok bytes =>
    have hload : Session.load { o with trace := trace } bytes = Session.load o bytes := by
      simp only [Session.load]
    simp only [Options.session, Session.create, hload]

/-- Nor does the rest of a run. -/
theorem Session.complete_trace (o : Options) (trace : Option String) (s : Session) :
    s.complete { o with trace := trace } = s.complete o := by
  simp only [complete, Options.location, RunReport.success]

/-- **Recording is invisible.** A recorded run ends like the batch with the same budget, and leaves the same
    memory and the same snapshot.  So a session with a recorder stops in the same way and after as many
    instructions as without; and a command line with a trace, whose first record can be written, leads to the
    same exit code and prints the same as without. -/
theorem recording_invisible :
    (∀ (table : IntrinsicTable) (n : Nat) (m : Machine Memory) (recorder : Recorder), ∃ s',
      outcome (Recorder.run table n) ⟨m, recorder⟩ = (.ok ((runBatch table n).run m).1, s') ∧
        s'.machine.bus = ((runBatch table n).run m).2.bus ∧
        s'.machine.cpu.snapshot = ((runBatch table n).run m).2.cpu.snapshot) ∧
    (∀ (limit : Nat) (m : Machine Memory) (table : IntrinsicTable) (recorder : Recorder),
      (outcome (Session.run limit) ⟨m, table, some recorder⟩).1 =
          (outcome (Session.run limit) ⟨m, table, none⟩).1 ∧
        (outcome (Session.run limit) ⟨m, table, some recorder⟩).2.machine.bus =
          (outcome (Session.run limit) ⟨m, table, none⟩).2.machine.bus ∧
        (outcome (Session.run limit) ⟨m, table, some recorder⟩).2.machine.cpu.snapshot =
          (outcome (Session.run limit) ⟨m, table, none⟩).2.machine.cpu.snapshot) ∧
    ∀ (o : Options) (image : Except String ByteArray) (name : String),
      (Record.location o.location).Accepted →
        (runImage { o with trace := some name } image none).seen =
          (runImage { o with trace := none } image none).seen := by
  refine ⟨fun table n m recorder => ?_, fun limit m table recorder => ?_,
    fun o image name hlocation => ?_⟩
  · obtain ⟨s', hrun, hcpu, hbus⟩ :=
      Recorder.run_related table (s := ⟨m, recorder⟩) (Recorder.same_refl m) n
    exact ⟨s', hrun, hbus, Cpu.equivalent_iff.mp hcpu⟩
  · obtain ⟨hval, -, hcpu, hbus⟩ := Session.alike_run limit ⟨m, table, some recorder⟩
      ⟨m, table, none⟩ ⟨rfl, Recorder.same_refl m⟩
    exact ⟨hval, hbus, Cpu.equivalent_iff.mp hcpu⟩
  -- the two runs start in the same session, and only the recorder differs
  · rw [runImage, runImage, o.session_trace (some name) image, o.session_trace none image]
    cases hsession : o.session image with
    | error e => rfl
    | ok s =>
      simp only [Session.report, Session.complete_trace]
      exact Session.seen_complete o hlocation ⟨rfl, Recorder.same_refl s.machine⟩

/-- A guest that exits with status 7. -/
def exitingImage : ByteArray :=
  packed [0xb8, 0x3c, 0, 0, 0, 0xbf, 7, 0, 0, 0, 0x0f, 0x05]

/-- A command line with a small stack and no heap. -/
def smallOptions : Options where
  image := "a"
  base := 0x1000
  entry := none
  heapSize := 0
  stackAddress := 0x10000
  stackSize := 0x1000
  maxInsts := 100
  intrinsics := []
  trace := none
  dumpState := true

/-- The name of a file is what is behind the last slash. -/
theorem fileName?_smallOptions : fileName? smallOptions.image = some "a" := by
  have hparts : "a".splitOn "/" = ["a"] := by
    rw [String.splitOn, String.splitOnAux, String.splitOnAux]
    decide +kernel
  rw [fileName?, smallOptions, hparts]
  decide

/-- Code that reads a number kept beside a vector register is recorded up to the halt, and the guest is
    loaded and run alike with a trace and without. -/
theorem recording_invisible_smallOptions :
    (∃ s', outcome (Recorder.run ⟨[]⟩ 3) ⟨⟨staleOnes, movingWord⟩, .empty⟩ =
        (.ok ⟨2, .halted⟩, s')) ∧
      (Session.create smallOptions exitingImage).toOption.isSome ∧
      (runImage { smallOptions with trace := some "t" } (.ok exitingImage) none).seen =
        (runImage { smallOptions with trace := none } (.ok exitingImage) none).seen := by
  obtain ⟨hengine, -, hrunner⟩ := recording_invisible
  have hbatch : ((runBatch ⟨[]⟩ 3).run ⟨staleOnes, movingWord⟩).1 = ⟨2, .halted⟩ := by
    decide +kernel
  obtain ⟨s', hrun, -, -⟩ := hengine ⟨[]⟩ 3 ⟨staleOnes, movingWord⟩ .empty
  have hfilename : (smallOptions.location.filename.getD "").utf8ByteSize < UInt16.size := by
    rw [Options.location, fileName?_smallOptions]
    decide
  have hlocation : (Record.location smallOptions.location).Accepted :=
    Record.accepted_location hfilename (by decide)
  rw [hbatch] at hrun
  exact ⟨⟨s', hrun⟩, by decide +kernel, hrunner smallOptions (.ok exitingImage) "t" hlocation⟩

end Amd64
