import Amd64.Machine.Stack
import Amd64.Runner.Options
import Amd64.Trace.Recorder

namespace Amd64

/-!
# Running an image

* `Session`          — a machine, its routines and, if a trace is asked for, a recorder;
* `Session.load`     — the session of a command line and an image;
* `Session.run`      — runs until the guest stops;
* `RunnerError`      — why there is no regular end;
* `runImage`         — all of it: what is printed, the exit code, and the trace.
-/

/-- Why a run has no regular end. -/
inductive RunnerError where
  | unreadableImage (name reason : String)
  | emptyImage (name : String)
  | imageTooLarge
  | imageNotMapped (error : MemoryError)
  | heapTooLarge
  | heapNotMapped (error : MemoryError)
  | stackNotMapped (error : MemoryError)
  | traceNotCreated (name reason : String)
  | traceNotWritten (error : TraceError)
  | unsupportedSyscall (number rip : UInt64)
  | guestFault (executed : Nat) (fault : Fault)
deriving DecidableEq, Inhabited

namespace RunnerError

/-- What was attempted or went wrong. -/
def context : RunnerError → String
  | unreadableImage name _ => "failed to read image " ++ name
  | emptyImage name => "image " ++ name ++ " is empty"
  | imageTooLarge => "image does not fit in the address space"
  | imageNotMapped _ => "failed to map image"
  | heapTooLarge => "heap does not fit in the address space"
  | heapNotMapped _ => "failed to map heap"
  | stackNotMapped _ => "failed to set up stack"
  | traceNotCreated name _ => "failed to create trace " ++ name
  | traceNotWritten _ => "failed to write trace record"
  | unsupportedSyscall number rip =>
    "unsupported syscall " ++ toString number.toNat ++ " at " ++ hex0x rip.toNat
  | guestFault executed _ => "guest fault after " ++ toString executed ++ " instructions"

/-- The cause, if it is not all said. -/
def cause? : RunnerError → Option String
  | unreadableImage _ reason => some reason
  | imageNotMapped e => some e.message
  | heapNotMapped e => some e.message
  | stackNotMapped e => some e.message
  | traceNotCreated _ reason => some reason
  | traceNotWritten e => some e.message
  | guestFault _ fault => some fault.message
  | _ => none

/-- The message for the user. -/
def report (e : RunnerError) : String :=
  match e.cause? with
  | none => "Error: " ++ e.context ++ "\n"
  | some cause => "Error: " ++ e.context ++ "\n\nCaused by:\n    " ++ cause ++ "\n"

end RunnerError

/-- How a guest stopped. -/
inductive Stop where
  | exit (status : UInt64)
  | halt
  | limit
deriving DecidableEq, Inhabited

/-- A run in progress. -/
structure Session where
  machine : Machine Memory
  table : IntrinsicTable
  recorder : Option Recorder

/-- Computations on a session that may end it. -/
abbrev SessionM := ExceptT RunnerError (StateM Session)

/-- The end of `size` bytes in whole pages from `start` on. -/
def endOfPages? (start size : UInt64) : Option UInt64 := do
  let len ← Page.ceil? size
  if start.toNat + len.toNat < UInt64.size then some (start + len) else none

/-- Uses a memory operation. -/
def withMemory {α : Type} (wrap : MemoryError → RunnerError) (act : MemoryM α) :
    ExceptT RunnerError (StateM Memory) α :=
  ExceptT.mk fun memory =>
    match act.run.run memory with
    | (.ok v, memory) => (.ok v, memory)
    | (.error e, memory) => (.error (wrap e), memory)

namespace Session

/-- Maps image, heap and stack and sets the registers up. -/
def load (o : Options) (image : ByteArray) : ExceptT RunnerError (StateM Memory) Cpu := do
  if image.size = 0 then throw (.emptyImage o.image)
  let some imageEnd := endOfPages? o.base (UInt64.ofNat image.size) | throw .imageTooLarge
  withMemory .imageNotMapped
    (Memory.map ⟨o.base, imageEnd, .readExecute, 0, "[image]"⟩ image)
  if o.heapSize ≠ 0 then
    let some heapEnd := endOfPages? imageEnd o.heapSize | throw .heapTooLarge
    withMemory .heapNotMapped
      (Memory.map ⟨imageEnd, heapEnd, .readWrite, 0, "[heap]"⟩ ByteArray.empty)
  let cpu ← withMemory .stackNotMapped (Memory.mapStack ⟨o.stackAddress, o.stackSize⟩)
  let cpu := cpu.setRip (o.entry.getD o.base)
  return if o.heapSize = 0 then cpu else cpu.setGpr .rdi imageEnd

/-- The session of a command line, without a recorder. -/
def create (o : Options) (image : ByteArray) : Except RunnerError Session :=
  match (load o image).run.run (.empty {}) with
  | (.error e, _) => .error e
  | (.ok cpu, memory) =>
    let table := o.intrinsics.foldl (fun t (id, a) => t.register a id) .empty
    .ok ⟨⟨cpu, memory⟩, table, none⟩

/-- Uses the recorder, if there is one. -/
def onRecorder (act : RecordingM Unit) : SessionM Unit :=
  ExceptT.mk fun
    | ⟨machine, table, none⟩ => (.ok (), ⟨machine, table, none⟩)
    | ⟨machine, table, some recorder⟩ =>
      match act.run.run ⟨machine, recorder⟩ with
      | (.ok _, ⟨machine, recorder⟩) => (.ok (), ⟨machine, table, some recorder⟩)
      | (.error e, ⟨machine, recorder⟩) =>
        (.error (.traceNotWritten e), ⟨machine, table, some recorder⟩)

/-- Runs at most `n` instructions, recorded if there is a recorder. -/
def runSlice (n : Nat) : SessionM BatchResult :=
  ExceptT.mk fun
    | ⟨machine, table, none⟩ =>
      match (runBatch table n).run machine with
      | (result, machine) => (.ok result, ⟨machine, table, none⟩)
    | ⟨machine, table, some recorder⟩ =>
      match (Recorder.run table n).run.run ⟨machine, recorder⟩ with
      | (.ok result, ⟨machine, recorder⟩) => (.ok result, ⟨machine, table, some recorder⟩)
      | (.error e, ⟨machine, recorder⟩) =>
        (.error (.traceNotWritten e), ⟨machine, table, some recorder⟩)

/-- Greatest number of instructions of a slice. -/
def sliceBudget : Nat := 100000

/-- Carries a system call out, of which there are two that end the guest. -/
def syscall : SessionM Stop := do
  let cpu := (← get).machine.cpu
  let number := cpu.gpr .rax
  if number = 60 ∨ number = 231 then
    let status := cpu.gpr .rdi
    onRecorder (Recorder.write
      (.systemLog ⟨cpu.rip, 1, "exit(" ++ toString status.toNat ++ ")"⟩))
    return .exit status
  else throw (.unsupportedSyscall number (cpu.rip - 2))

/-- What the end of a slice means for the run, of which `total` instructions were executed. -/
def conclude (total : Nat) : BatchExit → SessionM (Stop × Nat)
  | .completed => return (.limit, total)
  | .halted => return (.halt, total)
  | .syscall => return (← syscall, total)
  | .fault fault => throw (.guestFault total fault)

/-- Runs on after `total` instructions until the guest stops or `limit` is reached, in at most `n`
slices of `slice` instructions. -/
def runFrom (slice limit : Nat) : Nat → Nat → SessionM (Stop × Nat)
  | 0, total => return (.limit, total)
  | n + 1, total => do
    if limit ≤ total then return (.limit, total)
    else
      let result ← runSlice (min (limit - total) slice)
      if result.exit = .completed then runFrom slice limit n (total + result.executed)
      else conclude (total + result.executed) result.exit

/-- Runs until the guest stops or `limit` instructions were executed, `slice` of them at a time. -/
def runInSlices (slice limit : Nat) : SessionM (Stop × Nat) :=
  runFrom slice limit (limit / slice + 2) 0

/-- Runs until the guest stops or `limit` instructions were executed. -/
def run (limit : Nat) : SessionM (Stop × Nat) :=
  runInSlices sliceBudget limit

end Session

/-- The last part of a path, unless it leads upwards. -/
def fileName? (path : String) : Option String :=
  let parts := (path.splitOn "/").filter fun s => s ≠ "" ∧ s ≠ "."
  match parts.getLast? with
  | some ".." => none
  | name => name

/-- What a run leaves behind. -/
structure RunReport where
  code : UInt8
  stdout : String
  stderr : String
  /-- Contents of the trace file, if there is one. -/
  trace : Option ByteArray

namespace RunReport

/-- The report of a run without a regular end. -/
def failure (e : RunnerError) (trace : Option ByteArray) : RunReport :=
  ⟨1, "", e.report, trace⟩

/-- The report of a run that ended regularly. -/
def success (o : Options) (cpu : Cpu) (stop : Stop) (executed : Nat) (trace : Option ByteArray) :
    RunReport :=
  let stdout := if o.dumpState then cpu.snapshot.prettyJson ++ "\n" else ""
  match stop with
  | .exit status => ⟨status.toUInt8, stdout, "", trace⟩
  | .halt => ⟨0, stdout, "", trace⟩
  | .limit =>
    let note := "instruction limit reached after " ++ toString executed ++ " instructions\n"
    ⟨2, stdout, note, trace⟩

/-- The report of a command line that is not understood. -/
def usage : UsageError → RunReport
  | .help => ⟨0, "Usage: [OPTIONS] <IMAGE>\n", "", none⟩
  | e => ⟨2, "", "error: " ++ e.message ++ "\n\nFor more information, try '--help'.\n", none⟩

end RunReport

/-- The record at the beginning of a trace. -/
def Options.location (o : Options) : LocationRecord :=
  let entry := o.entry.getD o.base
  ⟨fileName? o.image, none, entry - o.base, entry⟩

/-- Runs a loaded session to its end. The trace is finished also if the guest faulted. -/
def Session.complete (o : Options) (s : Session) : RunReport :=
  let begun := (Session.onRecorder (Recorder.write (.location o.location))).run.run s
  match begun with
  | (.error e, s) => .failure e (s.recorder.map fun r => r.writer.output)
  | (.ok _, s) =>
    let (result, s) := (Session.run o.maxInsts.toNat).run.run s
    let (finished, s) := (Session.onRecorder Recorder.finish).run.run s
    let trace := s.recorder.map fun r => r.writer.output
    match finished, result with
    | .error e, _ => .failure e trace
    | _, .error e => .failure e trace
    | _, .ok (stop, executed) => .success o s.machine.cpu stop executed trace

/-- The session of a command line, given what reading the image's file yields. -/
def Options.session (o : Options) (image : Except String ByteArray) : Except RunnerError Session :=
  match image with
  | .error reason => .error (.unreadableImage o.image reason)
  | .ok bytes => Session.create o bytes

/-- Runs a loaded session, recorded if a trace is asked for. `traceProblem` says why the trace file cannot
be created, if it cannot. -/
def Session.report (o : Options) (traceProblem : Option String) (s : Session) : RunReport :=
  match o.trace, traceProblem with
  | none, _ => s.complete o
  | some name, some reason => .failure (.traceNotCreated name reason) none
  | some _, none => { s with recorder := some .empty }.complete o

/-- Runs an image: what is printed, the exit code, and the trace. -/
def runImage (o : Options) (image : Except String ByteArray) (traceProblem : Option String) :
    RunReport :=
  match o.session image with
  | .error e => .failure e none
  | .ok s => s.report o traceProblem

end Amd64
