import Amd64.Proofs.Machine.Fetch
import Amd64.Proofs.Semantics.Precise.Integer

namespace Amd64

/-!
# Steps that are routines

A routine takes the place of a function: it reads its return address from the stack, does its work, and
returns with a result.

* `Machine.Calls`     — the routine that a step performs, and its return address;
* `Cpu.returned`      — the registers after it has returned;
* `Exec.outcome_step_routine` — a step is the work of the routine and the return from it.
-/

/-- The instruction pointer is at a routine, and the word on the stack is `target`. -/
structure Machine.Calls (m : Machine Memory) (table : IntrinsicTable) (id : Intrinsic)
    (target : UInt64) : Prop where
  routine : table.get? m.cpu.rip = some id
  top : m.bus.readWord .w64 (m.cpu.gpr .rsp) = .ok target

/-- The registers after a routine has returned to `target` with a result. -/
def Cpu.returned (s : Cpu) (result target : UInt64) : Cpu :=
  ((s.setGpr .rax result).setGpr .rsp (s.gpr .rsp + 8)).setRip target

/-- The result is in the accumulator. -/
theorem Cpu.gpr_rax_returned (s : Cpu) (result target : UInt64) :
    (s.returned result target).gpr .rax = result := by
  show ((s.setGpr .rax result).setGpr .rsp _).gpr .rax = _
  rw [gpr_setGpr_of_ne _ _ (by decide), gpr_setGpr_self]

namespace Exec

variable {table : IntrinsicTable} {id : Intrinsic} {target : UInt64} {m : Machine Memory}

/-- **Routines.** The registers change when the routine has done its work, and only then. -/
theorem outcome_step_routine (h : m.Calls table id target) :
    outcome (step table) m =
      match outcome (routine id m.cpu) m with
      | (.ok result, m') => (.ok .proceed, ⟨m.cpu.returned result target, m'.bus⟩)
      | (.error f, m') => (.error f, m') := by
  have hroutine : m.bus.instructionAt table m.cpu.rip = .ok (.ofIntrinsic m.cpu.rip id) := by
    rw [Memory.instructionAt, h.routine]
  have htop : outcome (access (Bus.readWord .w64 (m.cpu.gpr .rsp)) : Exec Memory UInt64) m =
      (.ok target, m) := by
    refine (outcome_access_ask (fun b => b.readWord .w64 (m.cpu.gpr .rsp)) m).trans ?_
    rw [h.top]
    rfl
  have hcpu := keeps_cpu_routine id m.cpu m
  rw [outcome_step, hroutine]
  simp only [outcome_retire, Instruction.execute, Instruction.ofIntrinsic, intrinsic, outcome_bind,
    outcome_cpu, htop]
  generalize outcome (routine id m.cpu) m = r at hcpu ⊢
  obtain ⟨f | result, ⟨s, b⟩⟩ := r
  · rfl
  · obtain rfl : s = m.cpu := hcpu
    rfl

end Exec

end Amd64
