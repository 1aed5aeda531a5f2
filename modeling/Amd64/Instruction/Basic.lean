import Amd64.Instruction.Encoding
import Amd64.Instruction.Text

namespace Amd64

/-!
# Instructions

* `Instruction`   — an operation with the place and the bytes that it was decoded from;
* `DecodeError`   — why bytes do not form an instruction, with the bytes that were looked at.
-/

/-- A decoded instruction. -/
structure Instruction where
  rip : UInt64
  encoding : Encoding
  operation : Operation
deriving DecidableEq, Inhabited

namespace Instruction

/-- The routine `id` in the place of an instruction at `rip`. It has no bytes. -/
def ofIntrinsic (rip : UInt64) (id : Intrinsic) : Instruction :=
  ⟨rip, Encoding.empty, .intrinsic id⟩

/-- Number of bytes. -/
def size (i : Instruction) : Nat :=
  i.encoding.size

/-- The address behind the instruction. -/
def next (i : Instruction) : UInt64 :=
  i.rip + UInt64.ofNat i.size

/-- Whether a straight run of instructions ends here. -/
def isTerminator (i : Instruction) : Bool :=
  i.operation.isControlFlow

/-- Form in disassembly. -/
def text (i : Instruction) : String :=
  i.operation.text

end Instruction

/-- Why bytes do not form an instruction. -/
inductive DecodeCause where
  /-- The bytes end inside the instruction. -/
  | unexpectedEnd
  /-- The instruction needs more than fifteen bytes. -/
  | tooLong
  /-- The encoding is undefined. -/
  | invalid
  /-- The encoding is defined, but not one of those that are decoded here. -/
  | unsupported
deriving DecidableEq, Inhabited

/-- The cause in words. -/
def DecodeCause.message : DecodeCause → String
  | unexpectedEnd => "unexpected end of instruction bytes"
  | tooLong => "instruction longer than 15 bytes"
  | invalid => "invalid instruction"
  | unsupported => "unsupported instruction"

/-- A failed attempt to decode the instruction at `addr`. -/
structure DecodeError where
  addr : UInt64
  /-- The bytes up to the failure. -/
  encoding : Encoding
  cause : DecodeCause
deriving DecidableEq, Inhabited

/-- The error in words. -/
def DecodeError.message (e : DecodeError) : String :=
  e.cause.message ++ " at " ++ hex0x e.addr.toNat ++ ": [" ++ e.encoding.text ++ "]"

end Amd64
