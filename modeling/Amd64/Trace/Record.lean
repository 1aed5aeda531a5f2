import Amd64.Machine.Observation
import Amd64.Machine.Snapshot

namespace Amd64

/-!
# Records of a trace

A trace is a sequence of records of six kinds. Each kind has a tag of four letters, which is stored as a
little-endian number.

* `RecordKind`, `RecordKind.tag` — the kinds and their tags;
* `Record`                       — a record of one of the kinds.
-/

/-- Kind of a record. -/
inductive RecordKind where
  | cpuState | step | memoryEvent | location | systemLog | endOfTrace
deriving DecidableEq, Inhabited

namespace RecordKind

/-- All kinds. -/
def all : List RecordKind := [cpuState, step, memoryEvent, location, systemLog, endOfTrace]

/-- The letters of the tag. -/
def letters : RecordKind → String
  | cpuState => "CPU0"
  | step => "STEP"
  | memoryEvent => "MEM0"
  | location => "LOC0"
  | systemLog => "SLOG"
  | endOfTrace => "EOF0"

/-- The tag as a number. -/
def tag : RecordKind → Nat
  | cpuState => 0x30555043
  | step => 0x50455453
  | memoryEvent => 0x304d454d
  | location => 0x30434f4c
  | systemLog => 0x474f4c53
  | endOfTrace => 0x30464f45

/-- The kind of a tag. -/
def ofTag? (n : Nat) : Option RecordKind :=
  all.find? fun k => k.tag = n

@[simp] theorem ofTag?_tag (k : RecordKind) : ofTag? k.tag = some k := by
  cases k <;> rfl

/-- Name of the kind. -/
def name : RecordKind → String
  | cpuState => "CPU_STATE"
  | step => "STEP"
  | memoryEvent => "MEMORY_EVENT"
  | location => "LOCATION"
  | systemLog => "SYSTEM_LOG"
  | endOfTrace => "EOF"

end RecordKind

/-- An instruction that was executed. -/
structure StepRecord where
  index : UInt64
  pc : UInt64
  code : List UInt8
  disassembly : Option String
  /-- The registers before the instruction. -/
  state : Snapshot
deriving DecidableEq

/-- Where code comes from. -/
structure LocationRecord where
  filename : Option String
  symbol : Option String
  offset : UInt64
  pc : UInt64
deriving DecidableEq

/-- A message about the running program. -/
structure LogRecord where
  pc : UInt64
  thread : UInt64
  message : String
deriving DecidableEq

/-- A record of a trace. -/
inductive Record where
  | cpuState (state : Snapshot)
  | step (step : StepRecord)
  | memoryEvent (event : MemoryEvent)
  | location (location : LocationRecord)
  | systemLog (log : LogRecord)
  | endOfTrace
deriving DecidableEq

/-- The kind of a record. -/
def Record.kind : Record → RecordKind
  | cpuState _ => .cpuState
  | step _ => .step
  | memoryEvent _ => .memoryEvent
  | location _ => .location
  | systemLog _ => .systemLog
  | endOfTrace => .endOfTrace

end Amd64
