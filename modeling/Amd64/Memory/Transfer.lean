import Amd64.Memory.Basic
import Amd64.Width

namespace Amd64

/-!
# Reading, writing and fetching

* `Memory.readBytes`, `Memory.writeBytes` — data accesses, which need permission on every byte;
* `Memory.peek`, `Memory.poke`            — the same without regard to permissions;
* `Memory.fetch`                          — code, as far as it may be executed;
* `Memory.readWord`, `Memory.writeWord`   — little-endian numbers of 8 to 64 bits, and
  `Memory.readXmm`, `Memory.writeXmm` of 128 bits.
-/

namespace Memory

/-- The error of an access of `n` bytes from `a` on, if it fails. `enforce` says whether permissions
matter. -/
def accessError? (m : Memory) (access : Access) (enforce : Bool) (a : UInt64) (n : Nat) :
    Option MemoryError :=
  match m.table.obstacle? (fun p => !enforce || p.allows access) a.toNat n with
  | none => none
  | some .unmapped => some (.unmapped a (UInt64.ofNat n))
  | some .denied => some (.denied a (UInt64.ofNat n) access)

/-- Reads after a check. -/
def load (m : Memory) (enforce : Bool) (a : UInt64) (n : Nat) : Except MemoryError ByteArray :=
  match m.accessError? .read enforce a n with
  | none => .ok (m.table.gather a.toNat n)
  | some e => .error e

/-- Writes after a check: all bytes of `data` or none. -/
def store (enforce : Bool) (a : UInt64) (data : ByteArray) : MemoryM Unit := do
  match (← get).accessError? .write enforce a data.size with
  | none => modifyTable fun t => t.scatter data a.toNat 0
  | some e => throw e

/-- The `n` bytes from `a` on, which must be readable. -/
def readBytes (m : Memory) (a : UInt64) (n : Nat) : Except MemoryError ByteArray :=
  m.load true a n

/-- Replaces the bytes from `a` on, which must be writable. -/
def writeBytes (a : UInt64) (data : ByteArray) : MemoryM Unit :=
  store true a data

/-- The `n` bytes from `a` on, whatever their permissions. -/
def peek (m : Memory) (a : UInt64) (n : Nat) : Except MemoryError ByteArray :=
  m.load false a n

/-- Replaces the bytes from `a` on, whatever their permissions. -/
def poke (a : UInt64) (data : ByteArray) : MemoryM Unit :=
  store false a data

/-- The longest run of executable bytes from `a` on, at most `n` of them. The first has to be
executable. -/
def fetch (m : Memory) (a : UInt64) (n : Nat) : Except MemoryError ByteArray :=
  let bytes := m.table.runnable a.toNat n
  if bytes.size = 0 && n ≠ 0 then
    if m.isMapped a then .error (.denied a 1 .execute) else .error (.unmapped a 1)
  else .ok bytes

/-- The number of the given width at `a`. -/
def readWord (m : Memory) (w : Width) (a : UInt64) : Except MemoryError UInt64 := do
  return UInt64.ofNat (littleEndian (← m.readBytes a w.bytes))

/-- Writes the low bits of `v` at `a`. -/
def writeWord (w : Width) (a v : UInt64) : MemoryM Unit :=
  writeBytes a (packed (LittleEndian.bytes w.bytes v.toNat))

/-- The 128-bit number at `a`. -/
def readXmm (m : Memory) (a : UInt64) : Except MemoryError (BitVec 128) := do
  return BitVec.ofNat 128 (littleEndian (← m.readBytes a 16))

/-- Writes a 128-bit number at `a`. -/
def writeXmm (a : UInt64) (v : BitVec 128) : MemoryM Unit :=
  writeBytes a (packed (LittleEndian.bytes 16 v.toNat))

end Memory

end Amd64
