import Amd64.Semantics.Integer
import Amd64.Semantics.Routines
import Amd64.Semantics.Sse
import Amd64.Semantics.Strings
import Amd64.Semantics.Transfer
import Amd64.Semantics.Vex

namespace Amd64

/-!
# Executing instructions

`Instruction.execute` does what an instruction says and yields where execution goes on. It does not change
the instruction pointer itself.
-/

/-- Where execution goes on, and whether it stops there. -/
inductive Outcome where
  | next (rip : UInt64)
  | halt (rip : UInt64)
  | syscall (rip : UInt64)
deriving DecidableEq, Inhabited

/-- Where execution goes on. -/
def Outcome.rip : Outcome → UInt64
  | next rip => rip
  | halt rip => rip
  | syscall rip => rip

namespace Exec

variable {σ : Type} [Bus σ]

/-- Calls a function: the return address goes on the stack. -/
def callTo (returnAddress target : UInt64) : Exec σ Outcome := do
  pushValue .w64 returnAddress
  return .next target

/-- Returns from a function and takes its arguments off the stack. -/
def returnFrom (count : UInt16) : Exec σ Outcome := do
  let target ← popValue .w64
  let top := (← cpu).gpr .rsp
  setGpr .rsp (top + count.toUInt64)
  return .next target

end Exec

namespace Instruction

variable {σ : Type} [Bus σ]

/-- Executes an instruction with its bound operands. -/
def execute (i : Instruction) (b : Binding) : Exec σ Outcome := do
  let next := i.next
  match i.operation with
  | .arith op _ _ w => Exec.arith op (b.get 0) (b.get 1) w
  | .cmp _ _ w => Exec.cmp (b.get 0) (b.get 1) w
  | .test _ _ w => Exec.test (b.get 0) (b.get 1) w
  | .inc _ w => Exec.update (b.get 0) w fun f a => incFlags f w a
  | .dec _ w => Exec.update (b.get 0) w fun f a => decFlags f w a
  | .neg _ w => Exec.update (b.get 0) w fun f a => negFlags f w a
  | .not _ w => Exec.complement (b.get 0) w
  | .mulDiv op _ w => Exec.mulDiv op (b.get 0) w
  | .imul dst _ imm w => Exec.imul dst (b.get 1) imm w
  | .shift op _ count w => Exec.shift op (b.get 0) count w
  | .mov _ _ w => Exec.mov (b.get 0) (b.get 1) w
  | .movzx dst _ w => Exec.movzx dst (b.get 1) w
  | .movsx dst _ w => Exec.movsx dst (b.get 1) w
  | .lea dst _ => Exec.lea dst (b.get 1)
  | .xchg _ _ w => Exec.xchg (b.get 0) (b.get 1) w
  | .push _ w => Exec.push (b.get 0) w
  | .pop _ w => Exec.pop (b.get 0) w
  | .extendAcc w => Exec.extendAcc w
  | .fillData w => Exec.fillData w
  | .jmp target => return .next target
  | .jcc cond target => return .next (if (← Exec.cpu).holds cond then target else next)
  | .call target => return ← Exec.callTo next target
  | .jmpIndirect _ => return .next (← (b.get 0).read .w64)
  | .callIndirect _ => return ← Exec.callTo next (← (b.get 0).read .w64)
  | .ret count => return ← Exec.returnFrom count
  | .setcc cond _ => Exec.setcc cond (b.get 0)
  | .cmovcc cond dst _ w => Exec.cmovcc cond dst (b.get 1) w
  | .flag op => Exec.flag op
  | .string op w times narrow => Exec.string op w times narrow
  | .nop => pure ()
  | .hlt => return .halt next
  | .syscall => return .syscall next
  | .ud2 => Exec.invalidOpcode
  | .sse op _ _ => Exec.sse op (b.get 0) (b.get 1)
  | .vexMove _ dst src =>
    Exec.vexMove (dst.vecSize? <|> src.vecSize?) (b.get 0) (b.get 1)
  | .vexBinary op dst _ _ => Exec.vexBinary op dst.size (b.get 0) (b.get 1) (b.get 2)
  | .vzeroupper => Exec.modifyCpu Cpu.zeroUpper
  | .intrinsic id => return .next (← Exec.intrinsic id)
  return .next next

end Instruction

end Amd64
