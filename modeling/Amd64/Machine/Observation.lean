import Amd64.Semantics.Exec

namespace Amd64

/-!
# Watching memory accesses

* `MemoryEvent`         — one access of 1, 2, 4, 8 or 16 bytes;
* `MemoryEvent.pieces`  — a run of bytes as the fewest such accesses;
* `Watched`             — a memory whose accesses are kept. A run of bytes is one access per byte, or it is
  transferred as a whole and kept in pieces.

Only accesses that succeed are kept, and fetching code is none.
-/

/-- An access to memory. -/
structure MemoryEvent where
  address : UInt64
  /-- Number of bytes. -/
  size : UInt8
  write : Bool
  /-- The bytes as a little-endian number. -/
  value : BitVec 128
deriving DecidableEq, Inhabited

namespace MemoryEvent

/-- The greatest number of bytes of an access to at most `n` bytes. -/
def pieceSize (n : Nat) : Nat :=
  if 16 ≤ n then 16 else if 8 ≤ n then 8 else if 4 ≤ n then 4 else if 2 ≤ n then 2 else 1

theorem pieceSize_pos (n : Nat) : 0 < pieceSize n := by
  grind [pieceSize]

/-- A run of bytes in pieces, the largest first. -/
def pieces (write : Bool) (a : UInt64) (bs : List UInt8) : List MemoryEvent :=
  match bs with
  | [] => []
  | b :: rest =>
    let size := pieceSize (b :: rest).length
    let value := BitVec.ofNat 128 (LittleEndian.value ((b :: rest).take size))
    ⟨a, UInt8.ofNat size, write, value⟩
      :: pieces write (a + UInt64.ofNat size) ((b :: rest).drop size)
termination_by bs.length
decreasing_by
  have := pieceSize_pos (b :: rest).length
  simp only [List.length_drop, List.length_cons] at this ⊢
  omega

end MemoryEvent

/-- How a run of bytes is transferred. -/
inductive BulkMode where
  /-- One byte after the other. -/
  | each
  /-- As a whole or not at all. -/
  | whole
deriving DecidableEq, Inhabited

/-- A memory with the accesses that were made to it. -/
structure Watched (mode : BulkMode) where
  memory : Memory
  events : Array MemoryEvent

namespace Watched

variable {mode : BulkMode} {α : Type}

/-- Passes an access on and keeps the events that it stands for. -/
def forward (act : MemoryM α) (event : α → List MemoryEvent) : BusM (Watched mode) α :=
  ExceptT.mk fun
    | ⟨memory, events⟩ =>
      match act.run.run memory with
      | (.ok v, memory) => (.ok v, ⟨memory, events ++ (event v).toArray⟩)
      | (.error e, memory) => (.error e, ⟨memory, events⟩)

/-- Reads a number. -/
def readWord (w : Width) (a : UInt64) : BusM (Watched mode) UInt64 :=
  forward (Bus.readWord w a) fun v =>
    [⟨a, UInt8.ofNat w.bytes, false, v.toBitVec.setWidth 128⟩]

/-- Reads a 128-bit number. -/
def readXmm (a : UInt64) : BusM (Watched mode) (BitVec 128) :=
  forward (Bus.readXmm a) fun v => [⟨a, 16, false, v⟩]

/-- Writes a number. -/
def writeWord (w : Width) (a v : UInt64) : BusM (Watched mode) Unit :=
  forward (Bus.writeWord w a v) fun _ =>
    [⟨a, UInt8.ofNat w.bytes, true, (w.truncate v).toBitVec.setWidth 128⟩]

/-- Writes a 128-bit number. -/
def writeXmm (a : UInt64) (v : BitVec 128) : BusM (Watched mode) Unit :=
  forward (Bus.writeXmm a v) fun _ => [⟨a, 16, true, v⟩]

/-- Fetches code. -/
def fetch (a : UInt64) (n : Nat) : BusM (Watched mode) ByteArray :=
  forward (Bus.fetch a n) fun _ => []

instance : Bus (Watched .each) where
  readWord := readWord
  readXmm := readXmm
  writeWord := writeWord
  writeXmm := writeXmm
  fetch := fetch

instance : Bus (Watched .whole) where
  readWord := readWord
  readXmm := readXmm
  writeWord := writeWord
  writeXmm := writeXmm
  fetch := fetch
  readBytes a n := forward (Bus.readBytes a n) fun bs => MemoryEvent.pieces false a (byteList bs)
  writeBytes a bs :=
    forward (Bus.writeBytes a bs) fun _ => MemoryEvent.pieces true a (byteList bs)

end Watched

/-- Runs a computation on a machine under observation and yields the accesses that it made. -/
def watching {α : Type} (mode : BulkMode) (act : StateM (Machine (Watched mode)) α) :
    StateM (Machine Memory) (α × List MemoryEvent) := fun
  | ⟨cpu, memory⟩ =>
    match act.run ⟨cpu, ⟨memory, #[]⟩⟩ with
    | (v, ⟨cpu, ⟨memory, events⟩⟩) => ((v, events.toList), ⟨cpu, memory⟩)

end Amd64
