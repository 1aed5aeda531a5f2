import Amd64.Memory.Layout
import Amd64.Memory.Transfer
import Amd64.Proofs.Outcome

namespace Amd64

/-!
# Calls that may change an address space

* `Memory.outcome_allocateOn`, `outcome_mapOn`, `outcome_unmap`, `outcome_protect`, `outcome_store` — the
  outcome of each operation as a plain case distinction;
* `MemoryCall` — an operation with its arguments;
* `Memory.afterCalls`, `Memory.Reachable` — address spaces that calls lead to.
-/

namespace Memory

/-! ### The outcome of each operation -/

@[simp] theorem outcome_modifyTable (f : Table → Table) (m : Memory) :
    outcome (modifyTable f) m = (.ok (), ⟨m.window, f m.table⟩) := rfl

/-- Storage of zeros, or an error with the number of bytes. -/
@[simp] theorem outcome_storage (host : Host) (n : UInt64) (m : Memory) :
    outcome (storage host n) m =
      if host.affords n then (.ok (zeros n.toNat), m) else (.error (.noSpace n), m) := by
  unfold storage
  split <;> rfl

/-- An allocation rounds its size, looks for a place, and then asks for storage. -/
theorem outcome_allocateOn (host : Host) (size : UInt64) (name : String) (permissions : Permissions)
    (m : Memory) :
    outcome (allocateOn host size name permissions) m =
      if size = 0 then (.error (.badRange 0 0), m)
      else
        match Page.ceil? size with
        | none => (.error (.noSpace size), m)
        | some len =>
          match m.table.firstFit? len.toNat m.window.limit.toNat
            (Page.floor m.window.base).toNat with
          | none => (.error (.noSpace len), m)
          | some start =>
            let segment : Segment :=
              ⟨UInt64.ofNat start, UInt64.ofNat start + len, permissions, 0, name⟩
            if host.affords len then
              (.ok segment, ⟨m.window, m.table.insert ⟨segment, zeros len.toNat⟩⟩)
            else (.error (.noSpace len), m) := by
  unfold allocateOn
  by_cases hsize : size = 0
  · simp [hsize]
  cases hlen : Page.ceil? size with
  | none => simp [hsize]
  | some len =>
    cases hfit : m.table.firstFit? len.toNat m.window.limit.toNat
        (Page.floor m.window.base).toNat with
    | none => simp [hsize, outcome_bind, hfit]
    | some start =>
      by_cases hafford : host.affords len <;>
        simp [hsize, outcome_bind, outcome_mapResult, hfit, hafford, Except.map]

/-- A mapping is checked, storage is asked for, and a place that is taken is the last obstacle. -/
theorem outcome_mapOn (host : Host) (segment : Segment) (data : ByteArray) (m : Memory) :
    outcome (mapOn host segment data) m =
      if segment.stop ≤ segment.start then (.error (.badRange segment.start segment.stop), m)
      else if segment.size < data.size then
        (.error (.badRange segment.start
          (UInt64.ofNat (min (segment.start.toNat + data.size) (UInt64.size - 1)))), m)
      else if host.affords (segment.stop - segment.start) = false then
        (.error (.noSpace (segment.stop - segment.start)), m)
      else if m.table.overlaps segment.start segment.stop then
        (.error (.overlap segment.start segment.stop), m)
      else
        (.ok (), ⟨m.window, m.table.insert
          ⟨segment, data.copySlice 0 (zeros (segment.stop - segment.start).toNat) 0 data.size⟩⟩) := by
  unfold mapOn
  by_cases hempty : segment.stop ≤ segment.start
  · simp [hempty]
  by_cases hlong : segment.size < data.size
  · simp [hempty, hlong]
  by_cases hafford : host.affords (segment.stop - segment.start)
  · by_cases hover : m.table.overlaps segment.start segment.stop <;>
      simp [hempty, hlong, hafford, hover, outcome_bind]
  · simp [hempty, hlong, hafford, outcome_bind]

/-- Only whole segments are unmapped, by their first address. -/
theorem outcome_unmap (a : UInt64) (m : Memory) :
    outcome (unmap a) m =
      match m.table.find? a with
      | none => (.error (.notStart a), m)
      | some x =>
        if x.segment.start ≠ a then (.error (.notStart a), m)
        else (.ok x.segment, ⟨m.window, m.table.erase a⟩) := by
  unfold unmap
  cases hfind : m.table.find? a with
  | none => simp [outcome_bind, hfind]
  | some x =>
    by_cases hstart : x.segment.start = a <;>
      simp [outcome_bind, outcome_mapResult, hfind, hstart, Except.map]

/-- The range is rounded to pages and checked before any page changes. -/
theorem outcome_protect (a len : UInt64) (permissions : Permissions) (m : Memory) :
    outcome (protect a len permissions) m =
      if len = 0 then (.ok (), m)
      else
        match pagesEnd? a len with
        | none => (.error (.badRange a (a + len)), m)
        | some stop =>
          let start := Page.floor a
          if (m.table.obstacle? (fun _ => true) start.toNat (stop.toNat - start.toNat)).isSome then
            (.error (.denied a len .protect), m)
          else
            (.ok (), ⟨m.window,
              ((m.table.splitAt start).splitAt stop).setPermissions start stop permissions⟩) := by
  unfold protect
  by_cases hlen : len = 0
  · simp [hlen]
  cases hstop : pagesEnd? a len with
  | none => simp [hlen]
  | some stop =>
    by_cases hobs : (m.table.obstacle? (fun _ => true) (Page.floor a).toNat
        (stop.toNat - (Page.floor a).toNat)).isSome = true <;>
      simp [hlen, hobs, outcome_bind]

/-- A write is checked as a whole before any byte changes. -/
theorem outcome_store (enforce : Bool) (a : UInt64) (data : ByteArray) (m : Memory) :
    outcome (store enforce a data) m =
      match m.accessError? .write enforce a data.size with
      | none => (.ok (), ⟨m.window, m.table.scatter data a.toNat 0⟩)
      | some e => (.error e, m) := by
  unfold store
  cases herr : m.accessError? .write enforce a data.size <;> simp [outcome_bind, herr]

end Memory

/-! ### Calls -/

/-- An operation that may change an address space, with its arguments. -/
inductive MemoryCall where
  | allocate (size : UInt64) (name : String) (permissions : Permissions)
  | map (segment : Segment) (data : ByteArray)
  | unmap (a : UInt64)
  | protect (a len : UInt64) (permissions : Permissions)
  | writeBytes (a : UInt64) (data : ByteArray)
  | writeWord (w : Width) (a v : UInt64)
  | writeXmm (a : UInt64) (v : BitVec 128)
  | poke (a : UInt64) (data : ByteArray)

namespace MemoryCall

/-- The operation without its result. -/
def act : MemoryCall → MemoryM Unit
  | allocate size name permissions => discard (Memory.allocate size name permissions)
  | map segment data => Memory.map segment data
  | unmap a => discard (Memory.unmap a)
  | protect a len permissions => Memory.protect a len permissions
  | writeBytes a data => Memory.writeBytes a data
  | writeWord w a v => Memory.writeWord w a v
  | writeXmm a v => Memory.writeXmm a v
  | poke a data => Memory.poke a data

/-- The address space that a call on `m` leaves behind, whether it succeeds or fails. -/
def after (c : MemoryCall) (m : Memory) : Memory :=
  (outcome c.act m).2

end MemoryCall

namespace Memory

/-- The address space that calls on `m` leave behind, one after the other. -/
def afterCalls (m : Memory) (calls : List MemoryCall) : Memory :=
  calls.foldl (fun m c => c.after m) m

/-- An address space that calls lead to from one without segments. -/
def Reachable (m : Memory) : Prop :=
  ∃ (window : Window) (calls : List MemoryCall), m = (empty window).afterCalls calls

/-- Calls keep a memory among those that can be reached. -/
theorem Reachable.afterCalls {m : Memory} (h : m.Reachable) (calls : List MemoryCall) :
    (m.afterCalls calls).Reachable := by
  obtain ⟨window, before, rfl⟩ := h
  exact ⟨window, before ++ calls, (List.foldl_append ..).symm⟩

/-- **Invariants.** What an address space without segments has and every call keeps, all reachable
    ones have. -/
theorem Reachable.induction {P : Memory → Prop} (hempty : ∀ window, P (empty window))
    (hcall : ∀ (c : MemoryCall) m, P m → P (c.after m)) {m : Memory} (h : m.Reachable) : P m := by
  obtain ⟨window, calls, rfl⟩ := h
  suffices hrun : ∀ m, P m → P (m.afterCalls calls) from hrun _ (hempty window)
  intro m hm
  induction calls generalizing m with
  | nil => exact hm
  | cons c calls ih => exact ih (c.after m) (hcall c m hm)

end Memory

end Amd64
