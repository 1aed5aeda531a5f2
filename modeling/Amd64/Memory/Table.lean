import Amd64.Memory.Segment
import Amd64.Bytes

namespace Amd64

/-!
# Tables of mapped segments

A table lists the mapped segments with their bytes in the order of their addresses. Segments of a table
do not meet, so a walk along the list visits the bytes of a range in address order. Addresses are natural
numbers during a walk: the end of one segment can then be compared with the start of the next without
wrapping.

* `Table.find?`      — the mapping that covers an address;
* `Table.firstFit?`  — the lowest free place of a given size in a window;
* `Table.obstacle?`  — what stands in the way of an access, if anything does;
* `Table.gather`, `Table.scatter`, `Table.runnable` — the bytes of a range read, replaced, and read as
  far as they may be executed.
-/

/-- A segment with its bytes, the first of which is at the segment's start. -/
structure Mapping where
  segment : Segment
  bytes : ByteArray

namespace Mapping

/-- The first address as a natural number. -/
def start (m : Mapping) : Nat :=
  m.segment.start.toNat

/-- The address behind the last one as a natural number. -/
def stop (m : Mapping) : Nat :=
  m.segment.stop.toNat

/-- The part below `a`. -/
def below (m : Mapping) (a : UInt64) : Mapping where
  segment := { m.segment with stop := a }
  bytes := m.bytes.extract 0 (a.toNat - m.start)

/-- The part from `a` on. Its offset in the backing object advances with its start. -/
def above (m : Mapping) (a : UInt64) : Mapping where
  segment :=
    { m.segment with start := a, offset := m.segment.offset + (a - m.segment.start) }
  bytes := m.bytes.extract (a.toNat - m.start) m.bytes.size

/-- Replaces the bytes from position `off` on by the `n` bytes of `data` from position `pos` on. -/
def overwrite (m : Mapping) (off : Nat) (data : ByteArray) (pos n : Nat) : Mapping :=
  match m with
  | ⟨segment, bytes⟩ => ⟨segment, data.copySlice pos bytes off n⟩

end Mapping

/-- Mapped segments in address order. -/
abbrev Table := List Mapping

/-- What stands in the way of an access. -/
inductive Obstacle where
  | unmapped
  | denied
deriving DecidableEq, Inhabited

namespace Table

/-- The last mapping whose start meets `p`. -/
def lastStarting? (p : UInt64 → Bool) (t : Table) : Option Mapping :=
  (t.filter fun m => p m.segment.start).getLast?

/-- The mapping that covers `a`. Only the last one that starts at or below `a` can. -/
def find? (t : Table) (a : UInt64) : Option Mapping :=
  (t.lastStarting? (· ≤ a)).filter fun m => m.segment.contains a

/-- Whether a mapping meets the addresses from `start` up to `stop`. Of the mappings that start below
`stop` the last one also reaches furthest, so only this one is looked at. -/
def overlaps (t : Table) (start stop : UInt64) : Bool :=
  (t.lastStarting? (· < stop)).any fun m => start < m.segment.stop

/-- The lowest address from `cursor` on with `size` free bytes below `limit`. -/
def firstFit? (size limit : Nat) : Nat → Table → Option Nat
  | cursor, [] => if cursor + size ≤ limit then some cursor else none
  | cursor, m :: t =>
    if limit ≤ m.start then
      if cursor + size ≤ limit then some cursor else none
    else if m.stop ≤ cursor then firstFit? size limit cursor t
    else if cursor + size ≤ m.start then some cursor
    else firstFit? size limit m.stop t

/-- Adds a mapping at its place in address order. It replaces one with the same start. -/
def insert (m : Mapping) : Table → Table
  | [] => [m]
  | x :: t =>
    if m.segment.start < x.segment.start then m :: x :: t
    else if m.segment.start = x.segment.start then m :: t
    else x :: insert m t

/-- Removes the mapping that starts at `a`. -/
def erase (a : UInt64) : Table → Table
  | [] => []
  | m :: t => if m.segment.start = a then t else m :: erase a t

/-- Divides the mapping that has `a` strictly inside, so that a mapping starts at `a`. -/
def splitAt (a : UInt64) : Table → Table
  | [] => []
  | m :: t =>
    if m.segment.start < a && a < m.segment.stop then m.below a :: m.above a :: t
    else m :: splitAt a t

/-- Gives the mappings that start from `start` on and below `stop` new permissions. -/
def setPermissions (start stop : UInt64) (p : Permissions) (t : Table) : Table :=
  t.map fun m =>
    if start ≤ m.segment.start && m.segment.start < stop then
      { m with segment := { m.segment with permissions := p } }
    else m

/-- The first obstacle to an access of `n` bytes from `a` on that needs permissions with `ok`. -/
def obstacle? (ok : Permissions → Bool) : Table → Nat → Nat → Option Obstacle
  | [], _, n => if n = 0 then none else some .unmapped
  | m :: t, a, n =>
    if n = 0 then none
    else if m.stop ≤ a then obstacle? ok t a n
    else if a < m.start then some .unmapped
    else if !ok m.segment.permissions then some .denied
    else obstacle? ok t m.stop (n - (m.stop - a))

/-- The `n` bytes from `a` on, as far as they are mapped. -/
def gather : Table → Nat → Nat → ByteArray
  | [], _, _ => ByteArray.empty
  | m :: t, a, n =>
    if n = 0 then ByteArray.empty
    else if m.stop ≤ a then gather t a n
    else if a < m.start then ByteArray.empty
    else if n ≤ m.stop - a then m.bytes.extract (a - m.start) (a - m.start + n)
    else m.bytes.extract (a - m.start) (m.stop - m.start) ++ gather t m.stop (n - (m.stop - a))

/-- Replaces the bytes from `a` on by those of `data` from position `pos` on, as far as they are
mapped. -/
def scatter (data : ByteArray) : Table → Nat → Nat → Table
  | [], _, _ => []
  | m :: t, a, pos =>
    if data.size ≤ pos then m :: t
    else if m.stop ≤ a then m :: scatter data t a pos
    else if a < m.start then m :: t
    else
      let off := a - m.start
      let room := m.stop - a
      if data.size - pos ≤ room then m.overwrite off data pos (data.size - pos) :: t
      else
        let next := m.stop
        m.overwrite off data pos room :: scatter data t next (pos + room)

/-- The longest run of executable bytes from `a` on, at most `n` of them. -/
def runnable : Table → Nat → Nat → ByteArray
  | [], _, _ => ByteArray.empty
  | m :: t, a, n =>
    if n = 0 then ByteArray.empty
    else if m.stop ≤ a then runnable t a n
    else if a < m.start || !m.segment.permissions.execute then ByteArray.empty
    else if n ≤ m.stop - a then m.bytes.extract (a - m.start) (a - m.start + n)
    else m.bytes.extract (a - m.start) (m.stop - m.start) ++ runnable t m.stop (n - (m.stop - a))

end Table

end Amd64
