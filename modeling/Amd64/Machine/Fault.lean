import Amd64.Instruction.Basic
import Amd64.Memory.Error

namespace Amd64

/-!
# Faults

Why an instruction could not be fetched or executed. The instruction pointer stays at the instruction.
-/

/-- Cause of a fault. -/
inductive Fault where
  | decode (error : DecodeError)
  | memory (error : MemoryError)
  /-- The divisor is zero or the quotient does not fit. -/
  | divide (rip : UInt64)
  /-- The instruction is undefined, or does not take operands of this kind. -/
  | invalidOpcode (rip : UInt64)
deriving DecidableEq, Inhabited

/-- The fault in words. -/
def Fault.message : Fault → String
  | decode e => e.message
  | memory e => e.message
  | divide rip => "divide error at " ++ hex0x rip.toNat
  | invalidOpcode rip => "invalid opcode at " ++ hex0x rip.toNat

end Amd64
