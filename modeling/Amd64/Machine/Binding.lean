import Amd64.Instruction.Basic
import Amd64.Machine.Cpu

namespace Amd64

/-!
# Bound operands

Binding the operands of an instruction replaces addresses that count from the following instruction by
absolute ones. The registers in an address are looked up at each access.

* `BoundAddress`, `Location` — bound memory operands and operands;
* `BoundAddress.offset`      — the address without its segment, which `lea` computes;
* `BoundAddress.effective`   — the address of an access;
* `Binding`                  — the bound operands of an instruction.
-/

/-- A memory operand whose displacement no longer depends on where the instruction is. -/
structure BoundAddress where
  base : Option Gpr
  index : Option Gpr
  scale : Scale
  displacement : UInt64
  segment : Option SegmentRegister
  narrow : Bool
deriving DecidableEq, Inhabited

/-- Binds a memory operand of an instruction that ends before `next`. -/
def Address.bind (a : Address) (next : UInt64) : BoundAddress :=
  let displacement := a.displacement.toInt64.toUInt64
  match a.base with
  | .zero => ⟨none, a.index, a.scale, displacement, a.segment, a.narrow⟩
  | .register g => ⟨some g, a.index, a.scale, displacement, a.segment, a.narrow⟩
  | .next => ⟨none, a.index, a.scale, next + displacement, a.segment, a.narrow⟩

namespace BoundAddress

/-- The address without its segment. -/
def offset (m : BoundAddress) (s : Cpu) : UInt64 :=
  let base := match m.base with
    | none => 0
    | some g => s.gpr g
  let index := match m.index with
    | none => 0
    | some g => s.gpr g * UInt64.ofNat m.scale.factor
  let sum := m.displacement + base + index
  if m.narrow then Width.w32.truncate sum else sum

/-- The address of an access: the offset and the base of the segment. -/
def effective (m : BoundAddress) (s : Cpu) : UInt64 :=
  match m.segment with
  | none => m.offset s
  | some r => m.offset s + s.segmentBase r

end BoundAddress

/-- A bound operand. -/
inductive Location where
  | reg (reg : Reg)
  | vec (reg : VecReg)
  | mem (address : BoundAddress)
  | imm (value : UInt64)
deriving DecidableEq, Inhabited

namespace Location

/-- Whether the operand is in memory. -/
def isMem : Location → Bool
  | mem _ => true
  | _ => false

end Location

/-- Binds an operand of an instruction that ends before `next`. -/
def Operand.bind (o : Operand) (next : UInt64) : Location :=
  match o with
  | .reg r => .reg r
  | .vec v => .vec v
  | .mem a => .mem (a.bind next)
  | .imm v => .imm v

/-- The bound operands of an instruction in the order of `Operation.operands`. -/
structure Binding where
  locations : List Location
deriving DecidableEq, Inhabited

namespace Binding

/-- Operand `i`, where all numbers from 2 on mean the third. A missing operand is the immediate value
zero. -/
def get (b : Binding) (i : Nat) : Location :=
  b.locations.getD (min i 2) (.imm 0)

end Binding

/-- Binds the operands of an instruction. -/
def Instruction.binding (i : Instruction) : Binding :=
  ⟨i.operation.operands.map fun o => o.bind i.next⟩

/-- An instruction that is bound when it is first executed and keeps its binding. -/
structure PreparedInstruction where
  instruction : Instruction
  cached : Option Binding
deriving DecidableEq, Inhabited

namespace PreparedInstruction

/-- An instruction that was not executed yet. -/
def fresh (i : Instruction) : PreparedInstruction := ⟨i, none⟩

/-- Whether the operands were bound. -/
def isBound (p : PreparedInstruction) : Bool :=
  p.cached.isSome

/-- The bound operands, as kept or made now. -/
def binding (p : PreparedInstruction) : Binding :=
  p.cached.getD p.instruction.binding

/-- Binds the operands unless they are bound. -/
def bind (p : PreparedInstruction) : PreparedInstruction :=
  { p with cached := some p.binding }

end PreparedInstruction

end Amd64
