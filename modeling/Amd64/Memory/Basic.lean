import Amd64.Memory.Error
import Amd64.Memory.Table

namespace Amd64

/-!
# Address spaces

* `Memory`   — a table of segments and the window in which space is allocated;
* `MemoryM`  — operations that may fail and may change a memory. A failed operation still yields the
  memory that it leaves behind.

Allocating, mapping, unmapping and protecting are in `Memory.Layout`; reading, writing and fetching in
`Memory.Transfer`.
-/

/-- Where `Memory.allocate` places segments. -/
structure Window where
  /-- Lowest address. -/
  base : UInt64 := 0x7f0000000000
  /-- Address that no allocation passes. -/
  limit : UInt64 := 0x7fff00000000
deriving DecidableEq, Inhabited

/-- An address space. -/
structure Memory where
  window : Window
  table : Table

/-- Operations on an address space. -/
abbrev MemoryM := ExceptT MemoryError (StateM Memory)

namespace Memory

/-- An address space without segments. -/
def empty (window : Window) : Memory := ⟨window, []⟩

/-- The segments in address order. -/
def segments (m : Memory) : List Segment :=
  m.table.map Mapping.segment

/-- The table of segments, one line each. -/
def maps (m : Memory) : String :=
  String.join (m.segments.map fun s => s.text ++ "\n")

/-- The segment that covers `a`. -/
def segmentAt? (m : Memory) (a : UInt64) : Option Segment :=
  (m.table.find? a).map Mapping.segment

/-- Whether a segment covers `a`. -/
def isMapped (m : Memory) (a : UInt64) : Bool :=
  (m.table.find? a).isSome

/-- Replaces the table. -/
def modifyTable (f : Table → Table) : MemoryM Unit :=
  modify fun | ⟨window, table⟩ => ⟨window, f table⟩

end Memory

end Amd64
