import Amd64.Decoder.Basic
import Amd64.Semantics.Instruction

namespace Amd64

/-!
# Running a machine

* `Exec.fetchInstruction` — the instruction or routine at an address;
* `Exec.step`             — executes the instruction at the instruction pointer and moves the pointer;
* `runBatch`              — steps until a number of instructions was executed or execution stops.
-/

/-- How a step ended. -/
inductive StepExit where
  | proceed
  /-- A halt instruction was executed. The instruction pointer is behind it. -/
  | halted
  /-- A system call instruction was executed. The instruction pointer is behind it. -/
  | syscall
deriving DecidableEq, Inhabited

/-- How a step with an outcome ended. -/
def Outcome.exit : Outcome → StepExit
  | next _ => .proceed
  | halt _ => .halted
  | syscall _ => .syscall

/-- How a batch of steps ended. -/
inductive BatchExit where
  /-- The number of instructions was reached. -/
  | completed
  | halted
  | syscall
  | fault (fault : Fault)
deriving DecidableEq, Inhabited

/-- The number of instructions that were executed, and how the batch ended. -/
structure BatchResult where
  executed : Nat
  exit : BatchExit
deriving DecidableEq, Inhabited

namespace Exec

variable {σ : Type} [Bus σ]

/-- The instruction at `rip`, or the routine that takes its place. -/
def fetchInstruction (table : IntrinsicTable) (rip : UInt64) : Exec σ Instruction := do
  match table.get? rip with
  | some id => return .ofIntrinsic rip id
  | none =>
    let bytes ← access (Bus.fetch rip Encoding.maxSize)
    match decode rip (byteList bytes) with
    | .ok i => return i
    | .error e => throw (.decode e)

/-- Executes an instruction and moves the instruction pointer. -/
def retire (i : Instruction) (b : Binding) : Exec σ StepExit := do
  let outcome ← i.execute b
  modifyCpu fun s => s.setRip outcome.rip
  return outcome.exit

/-- Executes the instruction at the instruction pointer. -/
def step (table : IntrinsicTable) : Exec σ StepExit := do
  let i ← fetchInstruction table (← cpu).rip
  retire i i.binding

end Exec

/-- At most `n` further steps after `executed` ones. -/
def runFrom {σ : Type} [Bus σ] (table : IntrinsicTable) (executed : Nat) :
    Nat → StateM (Machine σ) BatchResult
  | 0 => return ⟨executed, .completed⟩
  | n + 1 => do
    match ← (Exec.step table).run with
    | .ok .proceed => runFrom table (executed + 1) n
    | .ok .halted => return ⟨executed + 1, .halted⟩
    | .ok .syscall => return ⟨executed + 1, .syscall⟩
    | .error fault => return ⟨executed, .fault fault⟩

/-- At most `n` steps. -/
def runBatch {σ : Type} [Bus σ] (table : IntrinsicTable) (n : Nat) :
    StateM (Machine σ) BatchResult :=
  runFrom table 0 n

end Amd64
