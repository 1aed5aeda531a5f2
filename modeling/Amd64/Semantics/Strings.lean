import Amd64.Arithmetic
import Amd64.Semantics.Exec

namespace Amd64

/-!
# String instructions

A string instruction works at the addresses in `rsi` and `rdi` and moves these pointers by the size of its
elements, downwards if the direction flag is set.

* `Exec.stringStep` — the work on one element;
* `Exec.string`     — the instruction with its repetition. Each round leaves the registers as they describe
  the work that remains.
-/

/-- The width of the pointer and count registers. -/
def pointerWidth (narrow : Bool) : Width :=
  if narrow then .w32 else .w64

namespace Exec

variable {σ : Type} [Bus σ]

/-- Moves a pointer past one element. -/
def advance (pointer : Reg) (w : Width) : Exec σ Unit := do
  let s ← cpu
  let size := UInt64.ofNat w.bytes
  let old := s.readReg pointer
  writeReg pointer (if s.flags.direction then old - size else old + size)

/-- Sets the flags of the difference of two elements. -/
def compareElements (w : Width) (a b : UInt64) : Exec σ Unit := do
  setFlags (subFlags (← cpu).flags w a b false).2

/-- The work on one element. Pointers move after all accesses succeeded. -/
def stringStep (op : StringOp) (w : Width) (narrow : Bool) : Exec σ Unit := do
  let source : Reg := .low .rsi (pointerWidth narrow)
  let target : Reg := .low .rdi (pointerWidth narrow)
  let acc : Reg := .low .rax w
  let s ← cpu
  match op with
  | .movs =>
    let v ← access (Bus.readWord w (s.readReg source))
    access (Bus.writeWord w (s.readReg target) v)
    advance source w
    advance target w
  | .stos =>
    access (Bus.writeWord w (s.readReg target) (s.readReg acc))
    advance target w
  | .lods =>
    let v ← access (Bus.readWord w (s.readReg source))
    writeReg acc v
    advance source w
  | .cmps =>
    let a ← access (Bus.readWord w (s.readReg source))
    let b ← access (Bus.readWord w (s.readReg target))
    compareElements w a b
    advance source w
    advance target w
  | .scas =>
    let b ← access (Bus.readWord w (s.readReg target))
    compareElements w (s.readReg acc) b
    advance target w

/-- Whether a repetition ends early. -/
def endsEarly (times : Repeat) (f : Flags) : Bool :=
  match times with
  | .repe => !f.zero
  | .repne => f.zero
  | _ => false

/-- Takes one off the count register. -/
def countDown (count : Reg) : Exec σ Unit := do
  writeReg count ((← cpu).readReg count - 1)

/-- Up to `n` rounds of a repeated string instruction. -/
def stringRounds (op : StringOp) (w : Width) (times : Repeat) (narrow : Bool) : Nat → Exec σ Unit
  | 0 => pure ()
  | n + 1 => do
    stringStep op w narrow
    countDown (.low .rcx (pointerWidth narrow))
    if endsEarly times (← cpu).flags then pure ()
    else stringRounds op w times narrow n

/-- A string instruction with its repetition. The count register says how many rounds there are at
most. -/
def string (op : StringOp) (w : Width) (times : Repeat) (narrow : Bool) : Exec σ Unit := do
  match times with
  | .none => stringStep op w narrow
  | _ =>
    let count := (← cpu).readReg (.low .rcx (pointerWidth narrow))
    stringRounds op w times narrow count.toNat

end Exec

end Amd64
