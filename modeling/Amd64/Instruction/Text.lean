import Amd64.Instruction.Operation

namespace Amd64

/-!
# Disassembly

* `Operation.mnemonic`     — the name of an operation;
* `Operation.operandTexts` — its operands as text, with counts, targets and immediate values that are not
  explicit operands.
-/

namespace Operation

/-- Name of the operation in disassembly. -/
def mnemonic : Operation → String
  | arith op _ _ _ => op.mnemonic
  | cmp _ _ _ => "cmp"
  | test _ _ _ => "test"
  | inc _ _ => "inc"
  | dec _ _ => "dec"
  | neg _ _ => "neg"
  | not _ _ => "not"
  | mulDiv op _ _ => op.mnemonic
  | imul _ _ _ _ => "imul"
  | shift op _ _ _ => op.mnemonic
  | mov _ _ _ => "mov"
  | movzx _ _ _ => "movzx"
  | movsx _ _ .w32 => "movsxd"
  | movsx _ _ _ => "movsx"
  | lea _ _ => "lea"
  | xchg _ _ _ => "xchg"
  | push _ _ => "push"
  | pop _ _ => "pop"
  | extendAcc .w16 => "cbw"
  | extendAcc .w32 => "cwde"
  | extendAcc _ => "cdqe"
  | fillData .w16 => "cwd"
  | fillData .w32 => "cdq"
  | fillData _ => "cqo"
  | jmp _ => "jmp"
  | jcc cond _ => "j" ++ cond.suffix
  | call _ => "call"
  | jmpIndirect _ => "jmp"
  | callIndirect _ => "call"
  | ret _ => "ret"
  | setcc cond _ => "set" ++ cond.suffix
  | cmovcc cond _ _ _ => "cmov" ++ cond.suffix
  | flag op => op.mnemonic
  | string op w .none _ => op.mnemonic ++ w.letter
  | string op w times _ => times.name ++ " " ++ op.mnemonic ++ w.letter
  | nop => "nop"
  | hlt => "hlt"
  | syscall => "syscall"
  | ud2 => "ud2"
  | sse op _ _ => op.mnemonic
  | vexMove true _ _ => "vmovdqa"
  | vexMove false _ _ => "vmovdqu"
  | vexBinary op _ _ _ => op.mnemonic
  | vzeroupper => "vzeroupper"
  | intrinsic id => "<intrinsic " ++ id.name ++ ">"

/-- What is written behind the explicit operands. -/
def extraText? : Operation → Option String
  | imul _ _ (some imm) w => some (hex0x (w.truncate imm).toNat)
  | shift _ _ (.imm n) _ => some (hex0x n.toNat)
  | shift _ _ .cl _ => some "cl"
  | jmp target => some (hex0x target.toNat)
  | jcc _ target => some (hex0x target.toNat)
  | call target => some (hex0x target.toNat)
  | ret count => if count = 0 then none else some (hex0x count.toNat)
  | _ => none

/-- The operands in disassembly. -/
def operandTexts (op : Operation) : List String :=
  op.operands.map Operand.text ++ op.extraText?.toList

/-- Mnemonic and operands. -/
def parts (op : Operation) : List String :=
  op.mnemonic :: op.operandTexts

/-- The mnemonic and, behind a tab, the operands with commas between them. -/
def text (op : Operation) : String :=
  match op.operandTexts with
  | [] => op.mnemonic
  | operands => op.mnemonic ++ "\t" ++ ",".intercalate operands

end Operation

end Amd64
