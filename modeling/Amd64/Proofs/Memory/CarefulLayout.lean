import Amd64.Proofs.Memory.Bytewise
import Amd64.Proofs.Memory.Careful
import Amd64.Proofs.Memory.Protect

namespace Amd64

/-!
# Careful changes of the layout

* `Careful.findFree_eq`      — the search for a free place does not slip;
* `Table.WellFormed.insert_parts`, `Careful.outcome_splitAt` — nor does the division of a segment, which is shortened
  in place, and its upper part put behind it;
* `Careful.outcome_allocateOn`, `Careful.outcome_mapOn`, `Careful.outcome_protect` — so no change of the layout does;
* `MemoryCall.carefully`, `Careful.readWord`, `Careful.readXmm` — all operations with careful arithmetic;
* `Memory.arithmetic_in_range` — none of them slips in a reachable address space.
-/

namespace Table

variable {t : Table} {x : Mapping} {a : UInt64}

/-! ### Parts of a segment -/

/-- A mapping below all others comes first. -/
theorem insert_of_lt (h : ∀ y ∈ t, x.start < y.start) : t.insert x = x :: t := by
  cases t with
  | nil => rfl
  | cons y t => exact if_pos (UInt64.lt_iff_toNat_lt.mpr (h y List.mem_cons_self))

/-- A mapping above another one comes behind it. -/
theorem insert_cons_of_lt {y : Mapping} (h : y.start < x.start) : Table.insert x (y :: t) = y :: Table.insert x t := by
  have hnlt : ¬ x.segment.start < y.segment.start := fun hlt => h.not_gt (UInt64.lt_iff_toNat_lt.mp hlt)
  have hne : ¬ x.segment.start = y.segment.start := fun heq => h.ne' (congrArg UInt64.toNat heq)
  rw [Table.insert, if_neg hnlt, if_neg hne]

/-- A mapping with the start of another one takes its place. -/
theorem insert_cons_of_eq {y : Mapping} (h : x.segment.start = y.segment.start) :
    Table.insert x (y :: t) = x :: t := by
  rw [Table.insert, if_neg (h ▸ UInt64.lt_irrefl _), if_pos h]

/-- Where the mapping that covers the address starts there, nothing is divided. -/
theorem WellFormed.splitAt_eq_self (h : t.WellFormed) (hstart : ∀ x, t.find? a = some x → x.segment.start = a) :
    t.splitAt a = t := by
  have houtside : ∀ y ∈ t, ¬ (y.segment.start < a && a < y.segment.stop) = true := fun y hy hin => by
    obtain ⟨hlow, hhigh⟩ := Mapping.strictlyInside_iff.mp hin
    have hcovers := h.find?_eq_some_iff.mpr ⟨hy, (Segment.contains_iff _ _).mpr ⟨hlow.le, hhigh⟩⟩
    exact hlow.ne (congrArg UInt64.toNat (hstart y hcovers))
  clear h hstart
  induction t with
  | nil => rfl
  | cons y t ih =>
    obtain ⟨hy, ht⟩ := List.forall_mem_cons.mp houtside
    rw [Table.splitAt, if_neg hy, ih ht]

/-- **Parts.** A mapping is divided if its lower part takes its place and the upper part is added. -/
theorem WellFormed.insert_parts (h : t.WellFormed) (hx : x ∈ t) (hlow : x.start < a.toNat) (hhigh : a.toNat < x.stop) :
    Table.insert (x.above a) (Table.insert (x.below a) t) = t.splitAt a := by
  induction t with
  | nil => cases hx
  | cons y t ih =>
    obtain ⟨hy, hyt, ht⟩ := wellFormed_cons.mp h
    obtain rfl | hxt := List.mem_cons.mp hx
    · -- all other mappings lie behind the upper part
      have hbehind : ∀ z ∈ t, (x.above a).start < z.start := fun z hz => hhigh.trans_le (hyt z hz)
      rw [insert_cons_of_eq (show (x.below a).segment.start = x.segment.start from rfl),
        insert_cons_of_lt (show (x.below a).start < (x.above a).start from hlow), insert_of_lt hbehind, Table.splitAt,
        if_pos (Mapping.strictlyInside_iff.mpr ⟨hlow, hhigh⟩)]
    · have hyx : y.stop ≤ x.start := hyt x hxt
      have hstart := hy.start_lt_stop
      have houtside : ¬ (y.segment.start < a && a < y.segment.stop) = true := fun hin => by
        obtain ⟨-, hin⟩ := Mapping.strictlyInside_iff.mp hin
        omega
      rw [insert_cons_of_lt (show y.start < (x.below a).start from hstart.trans_le hyx),
        insert_cons_of_lt (show y.start < a.toNat by omega), ih ht hxt, Table.splitAt, if_neg houtside]

end Table

namespace Careful

variable {m : Memory}

/-! ### Free places -/

/-- The cursor itself, if there is room up to the end of the window. Whether it is below this end is asked outright. -/
def lastFit (size limit cursor : Nat) : Option Nat :=
  if cursor ≤ limit ∧ size ≤ limit - cursor then some cursor else none

/-- Whether there is room in front of `start`. -/
def fitsBelow (size cursor start : Nat) : CarefulM Bool :=
  if cursor < start then do return size ≤ (← minus start cursor)
  else return false

/-- The lowest place from `cursor` on. -/
def findFree (size limit : Nat) : Nat → Table → CarefulM (Option Nat)
  | cursor, [] => return lastFit size limit cursor
  | cursor, x :: t => do
    if limit ≤ x.start then return lastFit size limit cursor
    if x.stop ≤ cursor then findFree size limit cursor t
    else if ← fitsBelow size cursor x.start then return some cursor
    else findFree size limit (max cursor x.stop) t

variable {size limit cursor start : Nat}

/-- The last place is compared without a slip. -/
theorem lastFit_eq (size limit cursor : Nat) :
    lastFit size limit cursor = if cursor + size ≤ limit then some cursor else none := by
  rw [lastFit]
  congr 1
  exact propext (by omega)

/-- A place below a mapping is compared without a slip. -/
theorem fitsBelow_eq (hsize : size ≠ 0) (cursor start : Nat) :
    fitsBelow size cursor start = pure (decide (cursor + size ≤ start)) := by
  rw [fitsBelow]
  split
  · next hlt =>
    rw [minus_eq hlt.le, pure_bind]
    congr 2
    exact propext (by omega)
  · next hge =>
    rw [decide_eq_false (show ¬ cursor + size ≤ start by omega)]

/-- The search makes no slip if there is something to place. -/
theorem findFree_eq (hsize : size ≠ 0) (limit cursor : Nat) (t : Table) :
    findFree size limit cursor t = pure (t.firstFit? size limit cursor) := by
  induction t generalizing cursor with
  | nil => rw [findFree, lastFit_eq, Table.firstFit?]
  | cons x t ih =>
    rw [findFree, Table.firstFit?, fitsBelow_eq hsize, lastFit_eq]
    split
    · split <;> rfl
    · split
      · exact ih cursor
      · next hbelow =>
        rw [pure_bind, Nat.max_eq_right (Nat.not_le.mp hbelow).le, ih]
        by_cases hfits : cursor + size ≤ x.start <;> simp [hfits]

/-! ### Divided segments -/

/-- The difference of two words is a word. -/
theorem ofNat_toNat_sub {a b : UInt64} (h : b ≤ a) : UInt64.ofNat (a.toNat - b.toNat) = a - b := by
  rw [← UInt64.toNat_sub_of_le a b h, UInt64.ofNat_toNat]

/-- Divides the segment that covers `a`, so that a segment starts at `a`. -/
def splitAt (a : UInt64) : CarefulM Unit := do
  let some x := (← get).table.find? a | return ()
  if x.segment.start = a then return ()
  ensure (x.start < a.toNat ∧ a.toNat < x.stop) .notInside
  let count ← minus a.toNat x.start
  let lower ← slice x.bytes 0 count
  let upper ← slice x.bytes count x.bytes.size
  modifyTable (Table.insert ⟨{ x.segment with stop := a }, lower⟩)
  modifyTable (Table.insert
    ⟨{ x.segment with start := a, offset := x.segment.offset + UInt64.ofNat count }, upper⟩)

/-- A mapping is cut without a slip. -/
theorem outcome_splitAt (h : m.table.WellFormed) (a : UInt64) :
    outcome (splitAt a) m = (.ok (), ⟨m.window, m.table.splitAt a⟩) := by
  simp only [splitAt, outcome_bind, outcome_get]
  cases hfind : m.table.find? a with
  | none =>
    rw [h.splitAt_eq_self fun x hx => by rw [hfind] at hx; cases hx]
    rfl
  | some x =>
    obtain ⟨hx, hlow, hhigh, hsize⟩ := h.covers_of_find? hfind
    dsimp only
    by_cases hstart : x.segment.start = a
    · rw [if_pos hstart, h.splitAt_eq_self fun y hy => by rw [hfind] at hy; cases hy; exact hstart]
      rfl
    · have hinside : x.start < a.toNat := lt_of_le_of_ne hlow fun heq => hstart (UInt64.toNat_inj.mp heq)
      have hcount : UInt64.ofNat (a.toNat - x.start) = a - x.segment.start :=
        ofNat_toNat_sub (UInt64.le_iff_toNat_le.mpr hlow)
      rw [if_neg hstart, ensure_eq ⟨hinside, hhigh⟩, pure_bind, minus_eq hlow, pure_bind,
        slice_eq (Nat.zero_le _) (by omega), pure_bind, slice_eq (by omega) (Nat.le_refl _), pure_bind, hcount,
        ← h.insert_parts hx hinside hhigh]
      rfl

/-! ### Operations -/

/-- Zero-filled storage for a segment of `n` bytes. -/
def storage (host : Host) (n : UInt64) : CarefulM ByteArray :=
  if host.affords n then return zeros n.toNat else fail (.noSpace n)

/-- Adds a zero-filled segment at the lowest free place of the window. -/
def allocateOn (host : Host) (size : UInt64) (name : String) (permissions : Permissions) : CarefulM Segment := do
  if size = 0 then fail (.badRange 0 0)
  let some len := Page.ceil? size | fail (.noSpace size)
  let m ← get
  let some start ← findFree len.toNat m.window.limit.toNat (Page.floor m.window.base).toNat m.table
    | fail (.noSpace len)
  let stop ← plus start len.toNat
  let segment : Segment := ⟨UInt64.ofNat start, UInt64.ofNat stop, permissions, 0, name⟩
  let bytes ← storage host len
  modifyTable (Table.insert ⟨segment, bytes⟩)
  return segment

/-- Adds a segment that begins with the bytes of `data`. Its size is at least zero, whatever its bounds are, and the
    end of too many bytes is at most the greatest address. -/
def mapOn (host : Host) (segment : Segment) (data : ByteArray) : CarefulM Unit := do
  if segment.stop ≤ segment.start then fail (.badRange segment.start segment.stop)
  if segment.size < data.size then
    fail (.badRange segment.start (UInt64.ofNat (min (segment.start.toNat + data.size) (UInt64.size - 1))))
  let bytes ← storage host (UInt64.ofNat segment.size)
  let filled ← fill bytes 0 data.size data
  if (← get).table.overlaps segment.start segment.stop then fail (.overlap segment.start segment.stop)
  modifyTable (Table.insert ⟨segment, filled⟩)

/-- Gives whole pages new permissions. Whether they end within 64 bits is asked outright. -/
def protect (a len : UInt64) (permissions : Permissions) : CarefulM Unit := do
  if len = 0 then return ()
  let start := Page.floor a
  let some stop := Memory.pagesEnd? a len | fail (.badRange a (a + len))
  let size ← minus stop.toNat start.toNat
  tryCatch (check .protect false start size) fun
    | .error _ => fail (.denied a len .protect)
    | .slip s => throw (.slip s)
  splitAt start
  splitAt stop
  ensure (start ≤ stop) .reversed
  modifyTable (Table.setPermissions start stop permissions)

/-- Storage of zeros, or an error with the number of bytes. -/
@[simp] theorem outcome_storage (host : Host) (n : UInt64) (m : Memory) :
    outcome (storage host n) m =
      if host.affords n then (.ok (zeros n.toNat), m) else (.error (.error (.noSpace n)), m) := by
  unfold storage
  split <;> rfl

/-- **Allocations.** A place that is found ends within the window. -/
theorem outcome_allocateOn (h : m.table.WellFormed) (host : Host) (size : UInt64) (name : String)
    (permissions : Permissions) :
    outcome (allocateOn host size name permissions) m =
      unslipped (outcome (Memory.allocateOn host size name permissions) m) := by
  rw [Memory.outcome_allocateOn, allocateOn]
  by_cases hsize : size = 0
  · rw [if_pos hsize, if_pos hsize]
    rfl
  rw [if_neg hsize, if_neg hsize]
  cases hlen : Page.ceil? size with
  | none => rfl
  | some len =>
    -- a length that was rounded up from something is not zero, as the search requires
    have hpos : len.toNat ≠ 0 := by
      have hsize' : size.toNat ≠ 0 := fun hzero => hsize (UInt64.toNat_inj.mp hzero)
      obtain ⟨-, hlen⟩ := Page.ceil?_eq_some_iff.mp hlen
      omega
    simp only [outcome_bind, outcome_get, findFree_eq hpos, outcome_pure]
    cases hfit : m.table.firstFit? len.toNat m.window.limit.toNat (Page.floor m.window.base).toNat with
    | none => rfl
    | some start =>
      -- the place found ends below the limit, so its end is a word
      obtain ⟨-, hlimit, -⟩ := h.firstFit?_free hfit
      have hword := m.window.limit.toNat_lt_size
      have hstop : UInt64.ofNat (start + len.toNat) = UInt64.ofNat start + len := by
        rw [UInt64.ofNat_add, UInt64.ofNat_toNat]
      dsimp only
      rw [plus_eq (by omega), pure_bind, hstop]
      simp only [outcome_bind, outcome_storage]
      by_cases hafford : host.affords len = true <;> simp [hafford, unslipped, Except.mapError]

/-- **Segments at a place of the caller's choice.** -/
theorem outcome_mapOn (host : Host) (segment : Segment) (data : ByteArray) (m : Memory) :
    outcome (mapOn host segment data) m = unslipped (outcome (Memory.mapOn host segment data) m) := by
  rw [Memory.outcome_mapOn, mapOn]
  by_cases hempty : segment.stop ≤ segment.start
  · rw [if_pos hempty, if_pos hempty]
    rfl
  rw [if_neg hempty, if_neg hempty]
  by_cases hlong : segment.size < data.size
  · rw [if_pos hlong, if_pos hlong]
    rfl
  -- the segment is not empty, so its size is the plain difference of its bounds
  have hle : segment.start ≤ segment.stop :=
    UInt64.le_iff_toNat_le.mpr (Nat.le_of_not_le fun hge => hempty (UInt64.le_iff_toNat_le.mpr hge))
  have hsize : UInt64.ofNat segment.size = segment.stop - segment.start := ofNat_toNat_sub hle
  have hroom : data.size ≤ (zeros (segment.stop - segment.start).toNat).size := by
    rw [size_zeros, UInt64.toNat_sub_of_le _ _ hle]
    exact Nat.not_lt.mp hlong
  rw [if_neg hlong, if_neg hlong, hsize, outcome_bind, outcome_storage]
  cases hafford : host.affords (segment.stop - segment.start) with
  | false => rfl
  | true =>
    rw [if_pos rfl, if_neg (by decide)]
    dsimp only
    rw [fill_eq (Nat.zero_add _) hroom, pure_bind, outcome_bind, outcome_get]
    dsimp only
    by_cases hoverlaps : m.table.overlaps segment.start segment.stop = true
    · rw [if_pos hoverlaps, if_pos hoverlaps]
      rfl
    · rw [if_neg hoverlaps, if_neg hoverlaps]
      rfl

/-- Protection makes no slip. -/
theorem outcome_protect (h : m.table.WellFormed) (a len : UInt64) (permissions : Permissions) :
    outcome (protect a len permissions) m = unslipped (outcome (Memory.protect a len permissions) m) := by
  rw [Memory.outcome_protect, protect]
  by_cases hlen : len = 0
  · rw [if_pos hlen, if_pos hlen]
    rfl
  rw [if_neg hlen, if_neg hlen]
  cases hend : Memory.pagesEnd? a len with
  | none => rfl
  | some stop =>
    -- rounding the start down and the end up cannot turn the range around
    have hle : (Page.floor a).toNat ≤ stop.toNat := by
      obtain ⟨-, hstop⟩ := Memory.pagesEnd?_eq_some_iff.mp hend
      rw [Page.toNat_floor, hstop, Memory.pagesStop]
      omega
    dsimp only
    rw [minus_eq hle, pure_bind]
    rw [outcome_bind, outcome_tryCatch, outcome_check h, Memory.accessError?]
    -- no permission is asked for: only unmapped bytes refuse
    have hall : (fun p : Permissions => !false || p.allows .protect) = fun _ => true := rfl
    rw [hall]
    cases hobstacle : m.table.obstacle? (fun _ => true) (Page.floor a).toNat (stop.toNat - (Page.floor a).toNat) with
    | some obstacle => cases obstacle <;> rfl
    | none =>
      dsimp only
      rw [outcome_bind, outcome_splitAt h]
      dsimp only
      rw [outcome_bind, outcome_splitAt (h.splitAt (Page.floor a)), ensure_eq (UInt64.le_iff_toNat_le.mpr hle),
        pure_bind]
      rfl

/-! ### Numbers -/

/-- The number of the given width at `a`, by its bytes. -/
def readWord (w : Width) (a : UInt64) : CarefulM UInt64 := do
  return UInt64.ofNat (littleEndian (← copyOut true a (zeros w.bytes)))

/-- The 128-bit number at `a`, by its bytes. -/
def readXmm (a : UInt64) : CarefulM (BitVec 128) := do
  return BitVec.ofNat 128 (littleEndian (← copyOut true a (zeros 16)))

/-- A word is read without a slip. -/
theorem outcome_readWord (h : m.table.WellFormed) (w : Width) (a : UInt64) :
    outcome (readWord w a) m = unslipped (m.readWord w a, m) := by
  rw [readWord, outcome_bind, outcome_copyOut h, size_zeros, Memory.readWord, Memory.readBytes]
  cases m.load true a w.bytes <;> rfl

/-- A number of 128 bits is read without a slip. -/
theorem outcome_readXmm (h : m.table.WellFormed) (a : UInt64) :
    outcome (readXmm a) m = unslipped (m.readXmm a, m) := by
  rw [readXmm, outcome_bind, outcome_copyOut h, size_zeros, Memory.readXmm, Memory.readBytes]
  cases m.load true a 16 <;> rfl

end Careful

/-! ### Calls -/

namespace MemoryCall

open Careful (copyIn)

/-- The operation on a host that may refuse storage, with careful arithmetic. The removal of a segment computes no
    addresses. -/
def carefully (host : Host) : MemoryCall → CarefulM Unit
  | allocate size name permissions => discard (Careful.allocateOn host size name permissions)
  | map segment data => Careful.mapOn host segment data
  | unmap a => ExceptT.adapt .error (discard (Memory.unmap a))
  | protect a len permissions => Careful.protect a len permissions
  | writeBytes a data => copyIn true a data
  | writeWord w a v => copyIn true a (packed (LittleEndian.bytes w.bytes v.toNat))
  | writeXmm a v => copyIn true a (packed (LittleEndian.bytes 16 v.toNat))
  | poke a data => copyIn false a data

/-- No call makes a slip on a well-formed table. -/
theorem outcome_carefully {m : Memory} (h : m.table.WellFormed) (host : Host) (c : MemoryCall) :
    outcome (c.carefully host) m = Careful.unslipped (outcome (c.carryOut host) m) := by
  have hwrite : ∀ enforce a data, outcome (copyIn enforce a data) m =
      Careful.unslipped (outcome (Memory.copyIn enforce a data) m) := fun enforce a data => by
    rw [Careful.outcome_copyIn h, Memory.copyIn_eq h]
  cases c with
  | allocate size name permissions =>
    rw [carefully, carryOut, outcome_discard, outcome_discard, Careful.outcome_allocateOn h]
    rcases outcome (Memory.allocateOn host size name permissions) m with ⟨_ | _, _⟩ <;> rfl
  | map segment data => exact Careful.outcome_mapOn host segment data m
  | unmap a => rfl
  | protect a len permissions => exact Careful.outcome_protect h a len permissions
  | writeBytes a data => exact hwrite true a data
  | writeWord w a v => exact hwrite true a _
  | writeXmm a v => exact hwrite true a _
  | poke a data => exact hwrite false a data

end MemoryCall

/-- On `m`, the careful computation does not slip, and ends as another one does with `r`. -/
structure Careful.EndsAs {α : Type} (x : CarefulM α) (m : Memory) (r : Except MemoryError α × Memory) : Prop where
  never_slips : ∀ s, (outcome x m).1 ≠ .error (.slip s)
  outcome_eq : outcome x m = Careful.unslipped r

/-- What is computed without a slip ends like the plain function. -/
theorem Careful.endsAs_of_outcome {α : Type} {x : CarefulM α} {m : Memory} {r : Except MemoryError α × Memory}
    (h : outcome x m = Careful.unslipped r) : Careful.EndsAs x m r :=
  ⟨fun s => h ▸ Careful.unslipped_ne_slip r s, h⟩

namespace Memory

open Careful (EndsAs endsAs_of_outcome)

/-- **Arithmetic of addresses.** In a reachable address space, no operation adds or subtracts beyond 64 bits, takes a
    slice of more bytes than there are, divides a segment at one of its ends, or fails to find a byte that it has
    checked, whatever its arguments are, and whatever storage the host refuses. With careful arithmetic, calls, reads
    and fetches to a buffer, and reads of numbers end as they do without. -/
theorem arithmetic_in_range {m : Memory} (h : m.Reachable) :
    (∀ host (c : MemoryCall), EndsAs (c.carefully host) m (outcome (c.carryOut host) m)) ∧
    (∀ c : MemoryCall, EndsAs (c.carefully .ample) m (outcome c.act m)) ∧
    (∀ enforce a buffer, EndsAs (Careful.copyOut enforce a buffer) m (m.load enforce a buffer.size, m)) ∧
    (∀ a buffer, EndsAs (Careful.fetch a buffer) m
      ((m.fetch a buffer.size).map fun bs => ⟨bs.size, bs.copySlice 0 buffer 0 bs.size⟩, m)) ∧
    (∀ w a, EndsAs (Careful.readWord w a) m (m.readWord w a, m)) ∧
    ∀ a, EndsAs (Careful.readXmm a) m (m.readXmm a, m) := by
  have hwf := h.wellFormed
  refine ⟨fun host c => endsAs_of_outcome (c.outcome_carefully hwf host), fun c => endsAs_of_outcome ?_,
    fun enforce a buffer => endsAs_of_outcome (Careful.outcome_copyOut hwf enforce a buffer),
    fun a buffer => endsAs_of_outcome (Careful.outcome_fetch hwf a buffer),
    fun w a => endsAs_of_outcome (Careful.outcome_readWord hwf w a),
    fun a => endsAs_of_outcome (Careful.outcome_readXmm hwf a)⟩
  rw [c.outcome_carefully hwf, c.outcome_carryOut_ample hwf]

/-- Where a read reaches the greatest address, it has the error that it should have. Without the check, the walk
    would come to a byte that is not there. -/
theorem arithmetic_in_range_highest :
    highest.Reachable ∧
      outcome (Careful.copyOut true 0xfffffffffffffffc (packed [0, 0, 0])) highest =
        (.ok (packed [1, 2, 3]), highest) ∧
      outcome (Careful.copyOut true 0xfffffffffffffffc (packed [0, 0, 0, 0, 0])) highest =
        (.error (.error (.unmapped 0xfffffffffffffffc 5)), highest) ∧
      outcome (Careful.fetch 0xffffffffffffffff (packed [0, 0])) highest =
        (.error (.error (.unmapped 0xffffffffffffffff 1)), highest) ∧
      (∀ s, (outcome ((MemoryCall.protect 0xfffffffffffffffc 2 .readExecute).carefully .ample) highest).1 ≠
        .error (.slip s)) ∧
      (outcome (discard (Careful.finish
        ((Careful.copyOutLoop 0xfffffffffffffffc).within 5 ⟨0, packed [0, 0, 0, 0, 0]⟩))) highest).1 =
          .error (.slip .lost) := by
  have h : highest.Reachable := ⟨_, _, rfl⟩
  obtain ⟨hcalls, -, hreads, hfetches, -⟩ := arithmetic_in_range h
  have hread : highest.load true 0xfffffffffffffffc 3 = .ok (packed [1, 2, 3]) := by decide +kernel
  have hbeyond : highest.load true 0xfffffffffffffffc 5 = .error (.unmapped 0xfffffffffffffffc 5) := by decide +kernel
  have hfetch : highest.fetch 0xffffffffffffffff 2 = .error (.unmapped 0xffffffffffffffff 1) := by decide +kernel
  refine ⟨h, (hreads true _ _).outcome_eq.trans ?_, (hreads true _ _).outcome_eq.trans ?_,
    (hfetches _ _).outcome_eq.trans ?_, (hcalls _ _).never_slips, by decide +kernel⟩
  · exact congrArg (fun r => Careful.unslipped (r, highest)) hread
  · exact congrArg (fun r => Careful.unslipped (r, highest)) hbeyond
  · show Careful.unslipped (Except.map _ (highest.fetch 0xffffffffffffffff 2), highest) = _
    rw [hfetch]
    rfl

end Memory

end Amd64
