import Amd64.Memory.Basic
import Amd64.Memory.Page

namespace Amd64

/-!
# The layout of an address space

* `Host`            — where the storage of segments comes from;
* `Memory.allocate` — a segment at the lowest free place;
* `Memory.map`      — a segment at a place of the caller's choice;
* `Memory.unmap`    — removal of a segment;
* `Memory.protect`  — new permissions for whole pages.

A failed operation leaves the address space as it was, also if it is the host that has no storage.
-/

/-- A host that may refuse storage of some numbers of bytes. -/
structure Host where
  grants : UInt64 → Bool

namespace Host

/-- A host with more storage than can be asked for. -/
def ample : Host := ⟨fun _ => true⟩

/-- The largest number of bytes that storage can be asked for, plus one. -/
def storageLimit : Nat := 0x8000000000000000

/-- Whether a host has storage for `n` bytes. -/
def affords (host : Host) (n : UInt64) : Bool :=
  n.toNat < storageLimit && host.grants n

end Host

namespace Memory

/-- Zero-filled storage for a segment of `n` bytes. -/
def storage (host : Host) (n : UInt64) : MemoryM ByteArray :=
  if host.affords n then pure (zeros n.toNat) else throw (.noSpace n)

/-- Adds a zero-filled segment of at least `size` bytes, in whole pages, at the lowest free place of the
window. -/
def allocateOn (host : Host) (size : UInt64) (name : String) (permissions : Permissions) :
    MemoryM Segment := do
  if size = 0 then throw (.badRange 0 0)
  let some len := Page.ceil? size | throw (.noSpace size)
  let m ← get
  let some start := m.table.firstFit? len.toNat m.window.limit.toNat (Page.floor m.window.base).toNat
    | throw (.noSpace len)
  let start := UInt64.ofNat start
  let segment : Segment := ⟨start, start + len, permissions, 0, name⟩
  let bytes ← storage host len
  modifyTable (Table.insert ⟨segment, bytes⟩)
  return segment

/-- Adds a zero-filled segment where storage is no concern. -/
def allocate (size : UInt64) (name : String) (permissions : Permissions) : MemoryM Segment :=
  allocateOn .ample size name permissions

/-- Adds a segment that begins with the bytes of `data` and is zero behind them. -/
def mapOn (host : Host) (segment : Segment) (data : ByteArray) : MemoryM Unit := do
  if segment.stop ≤ segment.start then throw (.badRange segment.start segment.stop)
  if segment.size < data.size then
    throw (.badRange segment.start
      (UInt64.ofNat (min (segment.start.toNat + data.size) (UInt64.size - 1))))
  let bytes ← storage host (segment.stop - segment.start)
  if (← get).table.overlaps segment.start segment.stop then
    throw (.overlap segment.start segment.stop)
  modifyTable (Table.insert ⟨segment, data.copySlice 0 bytes 0 data.size⟩)

/-- Adds a segment where storage is no concern. -/
def map (segment : Segment) (data : ByteArray) : MemoryM Unit :=
  mapOn .ample segment data

/-- Removes the segment that starts at `a`. -/
def unmap (a : UInt64) : MemoryM Segment := do
  let some m := (← get).table.find? a | throw (.notStart a)
  if m.segment.start ≠ a then throw (.notStart a)
  modifyTable (Table.erase a)
  return m.segment

/-- The end of the pages that hold `len` bytes from `a` on. -/
def pagesEnd? (a len : UInt64) : Option UInt64 :=
  if a.toNat + len.toNat < UInt64.size then Page.ceil? (a + len) else none

/-- Gives every page that holds one of the `len` bytes from `a` on new permissions. All of these pages
have to be mapped. -/
def protect (a len : UInt64) (permissions : Permissions) : MemoryM Unit := do
  if len = 0 then return
  let start := Page.floor a
  let some stop := pagesEnd? a len | throw (.badRange a (a + len))
  let obstacle :=
    (← get).table.obstacle? (fun _ => true) start.toNat (stop.toNat - start.toNat)
  if obstacle.isSome then throw (.denied a len .protect)
  modifyTable fun t => ((t.splitAt start).splitAt stop).setPermissions start stop permissions

end Memory

end Amd64
