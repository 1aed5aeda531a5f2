import Amd64.Trace.Writer

namespace Amd64

/-!
# Reading traces

* `PayloadReader`  — reads the fields of a payload, of which the declared size is known;
* `Record.read`    — the record in a payload of a kind;
* `nextRecord`     — the next record of a stream of frames. Frames of unknown kinds are skipped.

A field that goes beyond the declared size is a framing error, and the size that the payload would need is
reported up to the end of that field. Where the stream ends first, the stream is too short. Bytes that were
read stay read, also by a field that failed.
-/

/-- A stream inside a payload. -/
structure PayloadState where
  /-- The bytes of the stream that are left. -/
  rest : List UInt8
  /-- How many of them belong to the payload. -/
  remaining : Nat
  /-- How many bytes of the payload were read. -/
  consumed : Nat

/-- Why a field cannot be read. -/
inductive PayloadError where
  /-- The payload would have to have `needed` bytes. -/
  | overrun (needed : Nat)
  | failed (error : TraceError)

/-- Reads the fields of a payload. -/
abbrev PayloadReader := ExceptT PayloadError (StateM PayloadState)

namespace PayloadReader

/-- The next `n` bytes. -/
def take (n : Nat) : PayloadReader (List UInt8) :=
  ExceptT.mk fun p =>
    let (taken, rest) := p.rest.splitAt (min n p.remaining)
    let read := taken.length
    let q : PayloadState := ⟨rest, p.remaining - read, p.consumed + read⟩
    if read = n then (.ok taken, q)
    else if q.remaining = 0 then (.error (.overrun (p.consumed + n)), q)
    else (.error (.failed .unexpectedEnd), q)

/-- The number in the next `n` bytes. -/
def number (n : Nat) : PayloadReader Nat := do
  return LittleEndian.value (← take n)

/-- The number in the next eight bytes. -/
def word : PayloadReader UInt64 := do
  return UInt64.ofNat (← number 8)

/-- `n` numbers of eight bytes. -/
def words : (n : Nat) → PayloadReader (Vector UInt64 n)
  | 0 => return #v[]
  | n + 1 => do
    let ws ← words n
    return ws.push (← word)

/-- Ends with a malformed field. -/
def corrupt {α : Type} (problem : FieldProblem) : PayloadReader α :=
  throw (.failed (.corrupt problem))

/-- Checks that `n` more bytes belong to the payload. -/
def ensure (n : Nat) : PayloadReader Unit := do
  let p ← get
  if p.remaining < n then throw (.overrun (p.consumed + n))

/-- The bytes of a field whose length is known. -/
def body (n : Nat) : PayloadReader (List UInt8) := do
  ensure n
  if n = 0 then return [] else take n

/-- A byte array. -/
def array : PayloadReader (List UInt8) := do
  body (← number 4)

/-- A string. -/
def string : PayloadReader (Option String) := do
  let bytes ← body (← number 2)
  if bytes.isEmpty then return none
  else
    match Field.decodeString bytes with
    | .ok s => return some s
    | .error e => throw (.failed e)

/-- The words of `n` vector registers. -/
def vectors : Nat → PayloadReader (List Words)
  | 0 => return []
  | n + 1 => do
    let ws ← words 8
    return ws :: (← vectors n)

/-- A snapshot. -/
def snapshot : PayloadReader Snapshot := do
  let rip ← word
  let rflags ← word
  let gprs ← words 16
  let fsBase ← word
  let gsBase ← word
  let count ← number 4
  if Snapshot.maxVectors < count then corrupt .manyVectors
  return ⟨rip, rflags, gprs, fsBase, gsBase, ← vectors count⟩

/-- An executed instruction. -/
def step : PayloadReader StepRecord := do
  let index ← word
  let pc ← word
  let code ← array
  let disassembly ← string
  return ⟨index, pc, code, disassembly, ← snapshot⟩

/-- An access. -/
def memoryEvent : PayloadReader MemoryEvent := do
  let address ← word
  let size ← number 1
  unless [1, 2, 4, 8, 16].contains size do corrupt .eventSize
  let direction ← number 1
  if 1 < direction then corrupt .eventDirection
  return ⟨address, UInt8.ofNat size, direction = 1, BitVec.ofNat 128 (← number 16)⟩

/-- Where code comes from. -/
def location : PayloadReader LocationRecord := do
  let filename ← string
  let symbol ← string
  let offset ← word
  return ⟨filename, symbol, offset, ← word⟩

/-- A message. -/
def systemLog : PayloadReader LogRecord := do
  let pc ← word
  let thread ← word
  return ⟨pc, thread, (← string).getD ""⟩

end PayloadReader

/-- The record of a kind in a payload. -/
def Record.read : RecordKind → PayloadReader Record
  | .cpuState => cpuState <$> PayloadReader.snapshot
  | .step => step <$> PayloadReader.step
  | .memoryEvent => memoryEvent <$> PayloadReader.memoryEvent
  | .location => location <$> PayloadReader.location
  | .systemLog => systemLog <$> PayloadReader.systemLog
  | .endOfTrace => return endOfTrace

/-- Reads the record of a frame behind its header. -/
def readPayload (kind : RecordKind) (declared : Nat) : FieldReader Record :=
  ExceptT.mk fun bs =>
    match (Record.read kind).run.run ⟨bs, declared, 0⟩ with
    | (.ok record, p) =>
      if p.consumed = declared then (.ok record, p.rest)
      else (.error (.sizeMismatch kind.tag declared p.consumed), p.rest)
    | (.error (.overrun needed), p) => (.error (.sizeMismatch kind.tag declared needed), p.rest)
    | (.error (.failed e), p) => (.error e, p.rest)

/-- The next record, or nothing at the end of the stream. The first argument is as long as the stream at
least: each frame has a byte, so no more frames have to be looked at. -/
def nextRecordIn : List UInt8 → FieldReader (Option Record)
  | [] => return none
  | _ :: bound => do
    if (← get).isEmpty then return none
    else
      let tag ← FieldReader.number 4
      let declared ← FieldReader.number 4
      match RecordKind.ofTag? tag with
      | some kind => return some (← readPayload kind declared)
      | none =>
        let _ ← FieldReader.take declared
        nextRecordIn bound

/-- The next record, or nothing at the end of the stream. -/
def nextRecord : FieldReader (Option Record) := do
  nextRecordIn (← get)

/-- What a stream yields until it ends or `errors` errors were met, in at most `n` attempts. -/
def readRecords : Nat → Nat → List UInt8 → List (Except TraceError Record) × List UInt8
  | 0, _, bs => ([], bs)
  | n + 1, errors, bs =>
    if errors = 0 then ([], bs)
    else
      match nextRecord.run.run bs with
      | (.ok none, rest) => ([], rest)
      | (.ok (some record), rest) =>
        let (items, rest) := readRecords n errors rest
        (.ok record :: items, rest)
      | (.error e, rest) =>
        let (items, rest) := readRecords n (errors - 1) rest
        (.error e :: items, rest)

/-- What a stream yields until it ends or `errors` errors were met, and the bytes that are left. -/
def readTrace (errors : Nat) (bs : List UInt8) : List (Except TraceError Record) × List UInt8 :=
  readRecords (bs.length + 1) errors bs

end Amd64
