import Amd64.Bytes
import Amd64.Width

namespace Amd64

/-!
# Reading bytes of code

* `Refusal`  — why bytes that are all there do not form an instruction;
* `Reader`   — reads from a list of bytes. It stops without a result where the list is too short, and
  refuses at the byte up to which it has read;
* `Reader.byte`, `Reader.number`, `Reader.immediate` — the reading steps.
-/

/-- Why bytes that are all there do not form an instruction. -/
inductive Refusal where
  | invalid
  | unsupported
deriving DecidableEq, Inhabited

/-- Reads from the front of a list of bytes. The outer option is empty where bytes are missing. -/
abbrev Reader := ExceptT Refusal (StateT (List UInt8) Option)

namespace Reader

/-- What a reader makes of a list of bytes: nothing if the list is too short, else a value or a refusal
and the bytes that were not read. -/
def parse {α : Type} (r : Reader α) (bs : List UInt8) : Option (Except Refusal α × List UInt8) :=
  r.run.run bs

/-- Refuses an undefined encoding. -/
def invalid {α : Type} : Reader α := throw .invalid

/-- Refuses an encoding that is not decoded here. -/
def unsupported {α : Type} : Reader α := throw .unsupported

/-- The next byte. -/
def byte : Reader UInt8 :=
  ExceptT.mk fun
    | [] => none
    | b :: bs => some (.ok b, bs)

/-- The little-endian number in the next `n` bytes. -/
def number (n : Nat) : Reader Nat :=
  ExceptT.mk fun bs =>
    if bs.length < n then none
    else some (.ok (LittleEndian.value (bs.take n)), bs.drop n)

/-- The width of the immediate values of operations of a given width: there are no immediate values of
64 bits. -/
def immediateWidth : Width → Width
  | .w64 => .w32
  | w => w

/-- An immediate value for an operation of width `w`, sign-extended to 64 bits. -/
def immediate (w : Width) : Reader UInt64 := do
  let n ← number (immediateWidth w).bytes
  return (immediateWidth w).signExtend (UInt64.ofNat n)

/-- A signed displacement of one byte. -/
def int8 : Reader Int32 := do
  return (← byte).toInt8.toInt32

/-- A signed displacement of four bytes. -/
def int32 : Reader Int32 := do
  return (UInt32.ofNat (← number 4)).toInt32

end Reader

end Amd64
