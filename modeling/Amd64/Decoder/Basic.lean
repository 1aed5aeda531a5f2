import Amd64.Decoder.Primary
import Amd64.Decoder.Secondary
import Amd64.Decoder.Vex
import Amd64.Instruction.Basic

namespace Amd64

/-!
# Decoding

* `Reader.operation` — reads one instruction; its relative branch targets count from its end;
* `decode`           — the instruction at an address, or why there is none;
* `sweep`            — the instructions of a piece of code one behind the other.

At most fifteen bytes are looked at. Where these end inside an instruction, it depends on whether more
bytes follow whether the instruction is too long or the bytes are too few.
-/

namespace Reader

/-- Reads the rest of an instruction behind its prefixes and the first byte of its opcode. -/
def body (p : Prefixes) (op : UInt8) : Reader Operation := do
  if op = 0xc4 ∨ op = 0xc5 then p.vex op
  else if op = 0x0f then p.secondary (← byte)
  else p.primary op

/-- Reads one instruction. Only some operations on memory may be locked. -/
def operation : Reader Operation := do
  let (p, op) ← Prefixes.read
  let operation ← body p op
  if p.lock && !operation.isLockable then invalid else return operation

end Reader

/-- The cause of an error for a refused encoding. -/
def Refusal.cause : Refusal → DecodeCause
  | invalid => .invalid
  | unsupported => .unsupported

/-- The instruction at `rip`, given the bytes from there on. -/
def decode (rip : UInt64) (bs : List UInt8) : Except DecodeError Instruction :=
  let window := bs.take Encoding.maxSize
  match Reader.operation.parse window with
  | none =>
    .error ⟨rip, .ofBytes window,
      if bs.length ≤ Encoding.maxSize then .unexpectedEnd else .tooLong⟩
  | some (.error refusal, rest) =>
    .error ⟨rip, .ofBytes (window.take (window.length - rest.length)), refusal.cause⟩
  | some (.ok operation, rest) =>
    let size := window.length - rest.length
    .ok ⟨rip, .ofBytes (window.take size), operation.relocate (rip + UInt64.ofNat size)⟩

/-- One place of a sweep: what is found at a distance from the start. -/
structure SweepItem where
  position : Nat
  found : Except DecodeError Instruction

/-- The instructions in `bs`, whose first byte is `position` bytes behind `rip`. Where there is no
instruction the sweep goes on at the next byte. `fuel` bounds the number of items. -/
def sweepFrom (rip : UInt64) : Nat → Nat → List UInt8 → List SweepItem
  | 0, _, _ => []
  | _, _, [] => []
  | fuel + 1, position, bs =>
    let found := decode (rip + UInt64.ofNat position) bs
    let step := match found with
      | .ok i => i.size
      | .error _ => 1
    ⟨position, found⟩ :: sweepFrom rip fuel (position + step) (bs.drop step)

/-- The instructions in `bs`, one behind the other. -/
def sweep (rip : UInt64) (bs : List UInt8) : List SweepItem :=
  sweepFrom rip bs.length 0 bs

end Amd64
