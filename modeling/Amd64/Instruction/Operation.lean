import Amd64.Condition
import Amd64.Instruction.Opcode
import Amd64.Instruction.Operand

namespace Amd64

/-!
# Operations with their operands

* `Operation`               — what an instruction does and to which operands;
* `Operation.operands`      — the explicit operands, destination first;
* `Operation.isControlFlow` — whether execution may continue elsewhere than behind the instruction;
* `Operation.relocate`      — moves relative branch targets.
-/

/-- What an instruction does. Implicit operands, such as the pointers of string instructions, are not
listed. -/
inductive Operation where
  | arith (op : ArithOp) (dst src : Operand) (w : Width)
  | cmp (lhs rhs : Operand) (w : Width)
  | test (lhs rhs : Operand) (w : Width)
  | inc (dst : Operand) (w : Width)
  | dec (dst : Operand) (w : Width)
  | neg (dst : Operand) (w : Width)
  | not (dst : Operand) (w : Width)
  | mulDiv (op : MulDivOp) (src : Operand) (w : Width)
  /-- Signed product in one register, of the register or of an immediate value with the source. -/
  | imul (dst : Reg) (src : Operand) (imm : Option UInt64) (w : Width)
  | shift (op : ShiftOp) (dst : Operand) (count : ShiftCount) (w : Width)
  | mov (dst src : Operand) (w : Width)
  | movzx (dst : Reg) (src : Operand) (srcWidth : Width)
  | movsx (dst : Reg) (src : Operand) (srcWidth : Width)
  | lea (dst : Reg) (address : Address)
  | xchg (a b : Operand) (w : Width)
  | push (src : Operand) (w : Width)
  | pop (dst : Operand) (w : Width)
  /-- Extends the lower half of the accumulator with its sign. -/
  | extendAcc (w : Width)
  /-- Fills the data register with the sign of the accumulator. -/
  | fillData (w : Width)
  | jmp (target : UInt64)
  | jcc (cond : Condition) (target : UInt64)
  | call (target : UInt64)
  | jmpIndirect (target : Operand)
  | callIndirect (target : Operand)
  /-- Returns and takes `count` further bytes off the stack. -/
  | ret (count : UInt16)
  | setcc (cond : Condition) (dst : Operand)
  | cmovcc (cond : Condition) (dst : Reg) (src : Operand) (w : Width)
  | flag (op : FlagOp)
  /-- `narrow` selects the low 32 bits of the pointer and count registers. -/
  | string (op : StringOp) (w : Width) (times : Repeat) (narrow : Bool)
  | nop
  | hlt
  | syscall
  | ud2
  | sse (op : SseOp) (dst src : Operand)
  | vexMove (aligned : Bool) (dst src : Operand)
  | vexBinary (op : VexOp) (dst lhs : VecReg) (rhs : Operand)
  | vzeroupper
  | intrinsic (id : Intrinsic)
deriving DecidableEq, Inhabited

namespace Operation

/-- The explicit operands, destination first. -/
def operands : Operation → List Operand
  | arith _ dst src _ => [dst, src]
  | cmp lhs rhs _ => [lhs, rhs]
  | test lhs rhs _ => [lhs, rhs]
  | inc dst _ => [dst]
  | dec dst _ => [dst]
  | neg dst _ => [dst]
  | not dst _ => [dst]
  | mulDiv _ src _ => [src]
  | imul dst src _ _ => [.reg dst, src]
  | shift _ dst _ _ => [dst]
  | mov dst src _ => [dst, src]
  | movzx dst src _ => [.reg dst, src]
  | movsx dst src _ => [.reg dst, src]
  | lea dst address => [.reg dst, .mem address]
  | xchg a b _ => [a, b]
  | push src _ => [src]
  | pop dst _ => [dst]
  | jmpIndirect target => [target]
  | callIndirect target => [target]
  | setcc _ dst => [dst]
  | cmovcc _ dst src _ => [.reg dst, src]
  | sse _ dst src => [dst, src]
  | vexMove _ dst src => [dst, src]
  | vexBinary _ dst lhs rhs => [.vec dst, .vec lhs, rhs]
  | _ => []

/-- Whether execution may continue elsewhere than behind the instruction, or stop. -/
def isControlFlow : Operation → Bool
  | jmp _ => true
  | jcc _ _ => true
  | call _ => true
  | jmpIndirect _ => true
  | callIndirect _ => true
  | ret _ => true
  | hlt => true
  | syscall => true
  | ud2 => true
  | intrinsic _ => true
  | _ => false

/-- Adds `origin` to the target of a relative branch. -/
def relocate (origin : UInt64) : Operation → Operation
  | jmp target => jmp (origin + target)
  | jcc cond target => jcc cond (origin + target)
  | call target => call (origin + target)
  | op => op

/-- Whether the operation reads and replaces a value in memory, which is what a lock may be put on. -/
def isLockable : Operation → Bool
  | arith _ dst _ _ => dst.isMem
  | inc dst _ => dst.isMem
  | dec dst _ => dst.isMem
  | neg dst _ => dst.isMem
  | not dst _ => dst.isMem
  | xchg a b _ => a.isMem || b.isMem
  | _ => false

end Operation

end Amd64
