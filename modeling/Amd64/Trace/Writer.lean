import Amd64.Trace.Fields
import Amd64.Trace.Record

namespace Amd64

/-!
# Writing traces

A record is written as a frame: its tag, the size of its payload, each in four bytes, and the payload.

* `Record.payload`      — the payload of a record;
* `Record.payloadSize`  — how many bytes it has;
* `Record.frame`        — the frame of a record;
* `TraceWriter.write`   — appends a frame, or leaves the trace as it was.
-/

/-- The words of numbers one behind the other. -/
def wordBytes (ns : List UInt64) : List UInt8 :=
  ns.flatMap fun n => LittleEndian.bytes 8 n.toNat

namespace Snapshot

/-- Greatest number of vector registers in a trace. -/
def maxVectors : Nat := 32

/-- The registers other than vector registers. -/
def scalarWords (s : Snapshot) : List UInt64 :=
  s.rip :: s.rflags :: (s.gprs.toList ++ [s.fsBase, s.gsBase])

/-- The bytes of a snapshot. -/
def payload (s : Snapshot) : Except TraceError (List UInt8) :=
  if s.vectors.length ≤ maxVectors then
    .ok (wordBytes s.scalarWords ++ LittleEndian.bytes 4 s.vectors.length
      ++ wordBytes (s.vectors.flatMap Vector.toList))
  else .error (.corrupt .manyVectors)

/-- Number of bytes of a snapshot. -/
def payloadSize (s : Snapshot) : Nat :=
  8 * (2 + 16 + 2) + 4 + 64 * s.vectors.length

end Snapshot

/-- The bytes of an access. -/
def MemoryEvent.payload (e : MemoryEvent) : List UInt8 :=
  LittleEndian.bytes 8 e.address.toNat ++ [e.size, bif e.write then 1 else 0]
    ++ LittleEndian.bytes 16 e.value.toNat

namespace Record

/-- The payload of a record. -/
def payload : Record → Except TraceError (List UInt8)
  | cpuState s => s.payload
  | step s => do
    let code ← Field.array (some s.code)
    let disassembly ← Field.string s.disassembly
    let state ← s.state.payload
    return wordBytes [s.index, s.pc] ++ code ++ disassembly ++ state
  | memoryEvent e => return e.payload
  | location l => do
    let filename ← Field.string l.filename
    let symbol ← Field.string l.symbol
    return filename ++ symbol ++ wordBytes [l.offset, l.pc]
  | systemLog l => do
    let message ← Field.string (some l.message)
    return wordBytes [l.pc, l.thread] ++ message
  | endOfTrace => return []

/-- Number of bytes of the payload. -/
def payloadSize : Record → Nat
  | cpuState s => s.payloadSize
  | step s =>
    16 + Field.arraySize (some s.code) + Field.stringSize s.disassembly + s.state.payloadSize
  | memoryEvent _ => 26
  | location l => Field.stringSize l.filename + Field.stringSize l.symbol + 16
  | systemLog l => 16 + Field.stringSize (some l.message)
  | endOfTrace => 0

/-- The tag and the size in front of a payload. -/
def header (r : Record) : List UInt8 :=
  LittleEndian.bytes 4 r.kind.tag ++ LittleEndian.bytes 4 r.payloadSize

/-- The frame of a record. -/
def frame (r : Record) : Except TraceError (List UInt8) :=
  if UInt32.size ≤ r.payloadSize then .error (.corrupt .longPayload)
  else
    match r.payload with
    | .error e => .error e
    | .ok payload =>
      if payload.length = r.payloadSize then .ok (r.header ++ payload)
      else .error (.sizeMismatch r.kind.tag r.payloadSize payload.length)

end Record

/-- A trace that is being written. -/
structure TraceWriter where
  output : ByteArray
  /-- Number of records, counted in a word. -/
  count : UInt64

/-- Operations that append to a trace. -/
abbrev TraceM := ExceptT TraceError (StateM TraceWriter)

namespace TraceWriter

/-- A trace without records. -/
def empty : TraceWriter := ⟨ByteArray.empty, 0⟩

/-- Number of records so far. -/
def records (w : TraceWriter) : Nat :=
  w.count.toNat

/-- Appends bytes as one record. -/
def append (frame : List UInt8) : TraceWriter → TraceWriter
  | ⟨output, count⟩ => ⟨frame.foldl ByteArray.push output, count + 1⟩

/-- Appends a record. -/
def write (r : Record) : TraceM Unit := do
  match r.frame with
  | .ok frame => modify (append frame)
  | .error e => throw e

/-- Appends the end of the trace. -/
def finish : TraceM Unit :=
  write .endOfTrace

end TraceWriter

end Amd64
