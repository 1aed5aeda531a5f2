import Amd64.Machine.Run
import Amd64.Trace.Writer

namespace Amd64

/-!
# Recording a run

A recorder runs a machine one instruction at a time and writes a trace: for each instruction that can be
fetched a record with the registers before it, then one record for each access that it made.

* `Recorder`         — a trace with the number of steps;
* `Recorder.run`     — runs and records;
* `Recorder.finish`  — the final registers and the end of the trace.
-/

/-- A trace of a run. -/
structure Recorder where
  writer : TraceWriter
  /-- Number of steps, which is the index of the next one. -/
  steps : UInt64

/-- A machine that is recorded. -/
structure Recording where
  machine : Machine Memory
  recorder : Recorder

/-- Computations on a machine that is recorded. -/
abbrev RecordingM := ExceptT TraceError (StateM Recording)

namespace Recorder

/-- A recorder of an empty trace. -/
def empty : Recorder := ⟨.empty, 0⟩

/-- Appends a record. -/
def write (r : Record) : RecordingM Unit :=
  ExceptT.mk fun
    | ⟨machine, ⟨writer, steps⟩⟩ =>
      match (TraceWriter.write r).run.run writer with
      | (result, writer) => (result, ⟨machine, ⟨writer, steps⟩⟩)

/-- Appends records. -/
def writeAll : List Record → RecordingM Unit
  | [] => return ()
  | r :: rs => do
    write r
    writeAll rs

/-- Uses the machine. -/
def onMachine {α : Type} (act : StateM (Machine Memory) α) : RecordingM α :=
  ExceptT.mk fun
    | ⟨machine, recorder⟩ =>
      match act.run machine with
      | (v, machine) => (.ok v, ⟨machine, recorder⟩)

/-- Takes a snapshot. The machine is left with its floating-point numbers stored. -/
def takeSnapshot : StateM (Machine Memory) Snapshot :=
  modifyGet fun | ⟨cpu, bus⟩ => (cpu.snapshot, ⟨cpu.materialize, bus⟩)

/-- Writes the record of the instruction at the instruction pointer, if it can be fetched. -/
def recordStep (table : IntrinsicTable) : RecordingM Unit := do
  let pc := (← get).machine.cpu.rip
  match ← onMachine (Exec.fetchInstruction table pc).run with
  | .error _ => return ()
  | .ok i =>
    let index := (← get).recorder.steps
    let state ← onMachine takeSnapshot
    write (.step ⟨index, pc, i.encoding.bytes, some i.text, state⟩)

/-- Counts a step. -/
def countStep : RecordingM Unit :=
  modify fun | ⟨machine, ⟨writer, steps⟩⟩ => ⟨machine, ⟨writer, steps + 1⟩⟩

/-- Records one instruction. -/
def runOne (table : IntrinsicTable) : RecordingM BatchResult := do
  recordStep table
  countStep
  let (result, events) ← onMachine (watching .whole (runBatch table 1))
  writeAll (events.map .memoryEvent)
  return result

/-- At most `n` further instructions after `executed` ones. -/
def runFrom (table : IntrinsicTable) (executed : Nat) : Nat → RecordingM BatchResult
  | 0 => return ⟨executed, .completed⟩
  | n + 1 => do
    let result ← runOne table
    if result.exit = .completed then runFrom table (executed + result.executed) n
    else return ⟨executed + result.executed, result.exit⟩

/-- Runs and records at most `n` instructions. -/
def run (table : IntrinsicTable) (n : Nat) : RecordingM BatchResult :=
  runFrom table 0 n

/-- Writes the final registers and the end of the trace. -/
def finish : RecordingM Unit := do
  write (.cpuState (← onMachine takeSnapshot))
  write .endOfTrace

end Recorder

end Amd64
