import Amd64.Machine.Run

namespace Amd64

/-!
# Basic blocks

A basic block is a straight run of instructions of which only the last may be a branch. Its instructions are
bound when they are first executed and stay bound.

* `BasicBlock.decode` — the block at an address;
* `BasicBlock.run`    — executes a block from its first instruction on.
-/

/-- A run of instructions. -/
structure BasicBlock where
  start : UInt64
  instructions : List PreparedInstruction
deriving DecidableEq, Inhabited

/-- How far a block was executed, and how it ended. -/
structure BlockExit where
  executed : Nat
  exit : StepExit
deriving DecidableEq, Inhabited

namespace BasicBlock

variable {σ : Type} [Bus σ]

/-- Number of instructions. -/
def size (b : BasicBlock) : Nat :=
  b.instructions.length

/-- The address behind the last instruction. -/
def stop (b : BasicBlock) : UInt64 :=
  match b.instructions.getLast? with
  | some p => p.instruction.next
  | none => b.start

/-- An instruction and, unless it ends the block, at most `n` following ones. The block ends early before
an instruction that cannot be fetched. -/
def follow (table : IntrinsicTable) (i : Instruction) : Nat → Exec σ (List Instruction)
  | 0 => return [i]
  | n + 1 => do
    if i.isTerminator then return [i]
    else
      let found ← tryCatch (some <$> Exec.fetchInstruction table i.next) fun _ => pure none
      match found with
      | none => return [i]
      | some j => return i :: (← follow table j n)

/-- The block at `start` with at most `limit` instructions, but at least one. -/
def decode (table : IntrinsicTable) (start : UInt64) (limit : Nat) : Exec σ BasicBlock := do
  let first ← Exec.fetchInstruction table start
  let is ← follow table first (limit - 1)
  return ⟨start, is.map PreparedInstruction.fresh⟩

/-- Executes instructions after `executed` others. They are yielded with the bindings that were made. -/
def runFrom (executed : Nat) : List PreparedInstruction →
    StateM (Machine σ) (Except Fault BlockExit × List PreparedInstruction)
  | [] => return (.ok ⟨executed, .proceed⟩, [])
  | p :: ps => do
    let q := p.bind
    match ← (Exec.retire q.instruction q.binding).run with
    | .ok .proceed =>
      let (result, qs) ← runFrom (executed + 1) ps
      return (result, q :: qs)
    | .ok exit => return (.ok ⟨executed + 1, exit⟩, q :: ps)
    | .error fault => return (.error fault, q :: ps)

/-- Executes a block. It is yielded with the bindings that were made. -/
def run (b : BasicBlock) : StateM (Machine σ) (Except Fault BlockExit × BasicBlock) := do
  let (result, instructions) ← runFrom 0 b.instructions
  return (result, { b with instructions := instructions })

end BasicBlock

end Amd64
