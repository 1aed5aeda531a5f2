import Amd64.Machine.Cpu

namespace Amd64

/-!
# Snapshots

A snapshot holds the contents of all registers, without regard to how vector registers keep them.

* `Cpu.snapshot`         — the snapshot of a processor;
* `Cpu.restore`          — the processor of a snapshot;
* `Snapshot.json`, `Snapshot.prettyJson` — a snapshot as text, on one line and on many.
-/

/-- The contents of all registers. -/
structure Snapshot where
  rip : UInt64
  rflags : UInt64
  gprs : Vector UInt64 16
  fsBase : UInt64
  gsBase : UInt64
  vectors : List Words
deriving DecidableEq

namespace Snapshot

/-- The value of a general-purpose register. -/
def gpr (s : Snapshot) (g : Gpr) : UInt64 :=
  s.gprs.get g.index

end Snapshot

namespace Cpu

/-- The contents of all registers. -/
def snapshot (s : Cpu) : Snapshot where
  rip := s.rip
  rflags := s.flags.bits
  gprs := s.gprs
  fsBase := s.fsBase
  gsBase := s.gsBase
  vectors := s.vectors.toList.map VectorReg.words

/-- A processor with the contents of a snapshot. Vector registers that the snapshot lacks are zero, and
flags that are not modelled are dropped. -/
def restore (s : Snapshot) : Cpu where
  gprs := s.gprs
  rip := s.rip
  flags := (Flags.ofBits s.rflags).withReserved
  fsBase := s.fsBase
  gsBase := s.gsBase
  vectors := Vector.ofFn fun i =>
    match s.vectors[i.val]? with
    | some ws => .ofWords ws
    | none => .zero

end Cpu

/-! ### Text -/

/-- Numbers and lists of numbers, as far as snapshots need them. -/
inductive JsonValue where
  | number (n : UInt64)
  | list (items : List JsonValue)

namespace JsonValue

/-- A list of numbers. -/
def numbers (ns : List UInt64) : JsonValue :=
  list (ns.map number)

mutual

/-- A value on one line without blanks. -/
def compact : JsonValue → String
  | number n => toString n.toNat
  | list items => "[" ++ ",".intercalate (compactAll items) ++ "]"

/-- The values of a list on one line each. -/
def compactAll : List JsonValue → List String
  | [] => []
  | v :: vs => v.compact :: compactAll vs

end

mutual

/-- A value with every item of a list on a line of its own, two blanks further in than the list. -/
def pretty (indent : String) : JsonValue → String
  | number n => toString n.toNat
  | list [] => "[]"
  | list items =>
    "[\n" ++ ",\n".intercalate (prettyAll (indent ++ "  ") items) ++ "\n" ++ indent ++ "]"

/-- The values of a list, each behind the indentation. -/
def prettyAll (indent : String) : List JsonValue → List String
  | [] => []
  | v :: vs => (indent ++ v.pretty indent) :: prettyAll indent vs

end

end JsonValue

namespace Snapshot

/-- The parts of a snapshot with their names. -/
def fields (s : Snapshot) : List (String × JsonValue) :=
  [("rip", .number s.rip), ("rflags", .number s.rflags), ("gpr", .numbers s.gprs.toList),
    ("fs_base", .number s.fsBase), ("gs_base", .number s.gsBase),
    ("vectors", .list (s.vectors.map fun ws => .numbers ws.toList))]

/-- A snapshot on one line. -/
def json (s : Snapshot) : String :=
  let items := s.fields.map fun (name, value) => "\"" ++ name ++ "\":" ++ value.compact
  "\x7b" ++ ",".intercalate items ++ "\x7d"

/-- A snapshot with every number on a line of its own. -/
def prettyJson (s : Snapshot) : String :=
  let items := s.fields.map fun (name, value) => "  \"" ++ name ++ "\": " ++ value.pretty "  "
  "\x7b\n" ++ ",\n".intercalate items ++ "\n\x7d"

end Snapshot

end Amd64
