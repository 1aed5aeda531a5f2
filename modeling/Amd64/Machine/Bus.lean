import Amd64.Memory.Transfer

namespace Amd64

/-!
# Buses

The machine reaches memory through a bus, which may watch or refuse accesses.

* `Bus`       — the accesses: numbers of 8 to 128 bits, runs of bytes, and code;
* `readEach`, `writeEach` — runs of bytes, one byte at a time, as a bus transfers them unless it has a
  better way. Addresses wrap around.

An address space is a bus that transfers a run of bytes as a whole or not at all.
-/

/-- Accesses through a bus with the state `σ`. -/
abbrev BusM (σ : Type) := ExceptT MemoryError (StateM σ)

section
variable {σ : Type}

/-- Reads `n` bytes from `a` on, one at a time. -/
def readEach (readByte : UInt64 → BusM σ UInt64) : Nat → UInt64 → BusM σ (List UInt8)
  | 0, _ => pure []
  | n + 1, a => do
    let b ← readByte a
    let rest ← readEach readByte n (a + 1)
    return b.toUInt8 :: rest

/-- Writes bytes from `a` on, one at a time. -/
def writeEach (writeByte : UInt64 → UInt64 → BusM σ Unit) : List UInt8 → UInt64 → BusM σ Unit
  | [], _ => pure ()
  | b :: bs, a => do
    writeByte a b.toUInt64
    writeEach writeByte bs (a + 1)

end

/-- A way to reach memory. -/
class Bus (σ : Type) where
  /-- The number of a width at an address. -/
  readWord : Width → UInt64 → BusM σ UInt64
  /-- The 128-bit number at an address. -/
  readXmm : UInt64 → BusM σ (BitVec 128)
  /-- Writes the low bits of a number at an address. -/
  writeWord : Width → UInt64 → UInt64 → BusM σ Unit
  /-- Writes a 128-bit number at an address. -/
  writeXmm : UInt64 → BitVec 128 → BusM σ Unit
  /-- Code from an address on, at most the given number of bytes. -/
  fetch : UInt64 → Nat → BusM σ ByteArray
  /-- A run of bytes. -/
  readBytes : UInt64 → Nat → BusM σ ByteArray := fun a n =>
    packed <$> readEach (readWord .w8) n a
  /-- Replaces a run of bytes. -/
  writeBytes : UInt64 → ByteArray → BusM σ Unit := fun a bs =>
    writeEach (writeWord .w8) (byteList bs) a

namespace Memory

/-- A question to a memory as an access. -/
def ask {α : Type} (f : Memory → Except MemoryError α) : MemoryM α :=
  ExceptT.mk fun m => (f m, m)

instance : Bus Memory where
  readWord w a := ask fun m => m.readWord w a
  readXmm a := ask fun m => m.readXmm a
  writeWord := writeWord
  writeXmm := writeXmm
  fetch a n := ask fun m => m.fetch a n
  readBytes a n := ask fun m => m.readBytes a n
  writeBytes := writeBytes

end Memory

end Amd64
