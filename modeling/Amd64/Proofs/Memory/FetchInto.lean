import Amd64.Proofs.Memory.Fetch
import Amd64.Proofs.Memory.Unchanged

namespace Amd64

/-!
# Code that is copied to a buffer

A fetch fills a buffer segment by segment.  It ends where the buffer is full, at the greatest address, and at the
first byte that is not mapped or may not be executed; only at the first byte of all is this an error.

* `Memory.fetchInto`          — a fetch that looks each segment up;
* `Memory.exists_fetchFrom`   — what its loop has copied when it ends;
* `Memory.FetchesInto`        — what a fetch does to a buffer, said by cells;
* `Memory.fetchInto_longestRun` — it does this, so how code is divided into segments does not matter.
-/

/-! ### The loop -/

namespace Memory

/-- Copies code from `a` on to a buffer, of which the first `done` bytes are filled, from at most `n` segments.
Yields how many bytes are filled then, and the buffer. -/
def fetchFrom (m : Memory) (a : UInt64) : Nat → Nat → ByteArray → Except MemoryError Nat × ByteArray
  | 0, done, buffer => (.ok done, buffer)
  | n + 1, done, buffer =>
    if buffer.size ≤ done then (.ok done, buffer)
    else if UInt64.size ≤ a.toNat + done then (.ok done, buffer)
    else match m.table.find? (a + UInt64.ofNat done) with
      | none => (.ok done, buffer)
      | some x =>
        if x.segment.permissions.execute then
          let offset := a.toNat + done - x.start
          let count := min (x.bytes.size - offset) (buffer.size - done)
          fetchFrom m a n (done + count) (x.bytes.copySlice offset buffer done count)
        else if done = 0 then (.error (.denied a 1 .execute), buffer)
        else (.ok done, buffer)

/-- Copies code from `a` on to a buffer as far as it may be executed.  The first byte has to be executable, if
the buffer has room for one. -/
def fetchInto (m : Memory) (a : UInt64) (buffer : ByteArray) : Except MemoryError Nat × ByteArray :=
  match m.fetchFrom a buffer.size 0 buffer with
  | (.ok 0, filled) => (if buffer.size = 0 then .ok 0 else .error (.unmapped a 1), filled)
  | result => result

variable {m : Memory} {a : UInt64} {buffer : ByteArray} {n done : Nat}

/-- The loop ends at a byte that may not be executed. -/
theorem fetchFrom_of_not_runs (h : m.table.WellFormed) (hstop : m.table.runs (a.toNat + done) = false)
    (hfirst : done = 0 → m.view? a.toNat = none) :
    m.fetchFrom a n done buffer = (.ok done, buffer) := by
  cases n with
  | zero => rfl
  | succ n =>
    simp only [fetchFrom]
    split
    · rfl
    · split
      · rfl
      · next hroom hfits =>
        have haddress : (a + UInt64.ofNat done).toNat = a.toNat + done :=
          toNat_add_ofNat (Nat.not_le.mp hfits)
        split
        · rfl
        · next x hfind =>
          obtain ⟨hx, hlow, hhigh, -⟩ := h.covers_of_find? hfind
          rw [haddress] at hlow hhigh
          have hno : x.segment.permissions.execute = false :=
            (h.runs_of_mem hx ⟨hlow, hhigh⟩).symm.trans hstop
          -- the very first byte is not mapped, so others were copied before
          have hpos : done ≠ 0 := fun hzero => by
            obtain ⟨b, hcell⟩ := h.exists_view?_of_mem hx ⟨hlow, hhigh⟩
            rw [hzero] at hcell
            exact Option.some_ne_none _ (hcell.symm.trans (hfirst hzero))
          rw [hno, if_neg Bool.false_ne_true, if_neg hpos]

/-- The contents of a buffer with the bytes of `k` cells, from the address `b` on, at the position `done`. -/
def filledBy (m : Memory) (b done k : Nat) (buffer : ByteArray) : List (Option UInt8) :=
  ((byteList buffer).take done).map some ++
    ((List.range' b k).map fun x => (m.view? x).map Prod.fst) ++
      ((byteList buffer).drop (done + k)).map some

theorem filledBy_zero (m : Memory) (b done : Nat) (buffer : ByteArray) :
    m.filledBy b done 0 buffer = (byteList buffer).map some := by
  rw [filledBy, List.range'_zero, List.map_nil, List.append_nil, Nat.add_zero, ← List.map_append,
    List.take_append_drop]

/-- Cells that are filled in behind others are filled in with these. -/
theorem filledBy_add {b k : Nat} {filled : ByteArray} (hfits : done + k ≤ buffer.size)
    (hfilled : (byteList filled).map some = m.filledBy b done k buffer) (k' : Nat) :
    m.filledBy (b + k) (done + k) k' filled = m.filledBy b done (k + k') buffer := by
  have hfront : ((((byteList buffer).take done).map some ++
      (List.range' b k).map fun x => (m.view? x).map Prod.fst) : List (Option UInt8)).length =
        done + k := by
    simp only [List.length_append, List.length_map, List.length_take, length_byteList,
      List.length_range']
    omega
  have htake : ((byteList filled).take (done + k)).map some =
      ((byteList buffer).take done).map some ++
        (List.range' b k).map fun x => (m.view? x).map Prod.fst := by
    rw [List.map_take, hfilled, filledBy, List.take_left' hfront]
  have hdrop : ((byteList filled).drop (done + k + k')).map some =
      ((byteList buffer).drop (done + (k + k'))).map some := by
    rw [List.map_drop, hfilled, filledBy, ← List.drop_drop, List.drop_left' hfront, ← List.map_drop,
      List.drop_drop, Nat.add_assoc]
  rw [filledBy, htake, hdrop, filledBy, ← List.range'_append_1, List.map_append]
  simp only [List.append_assoc]

/-- Bytes copied from a mapping to a buffer are those of the cells. -/
theorem byteList_copyCode (h : m.table.WellFormed) {x : Mapping} (hx : x ∈ m.table) {b k : Nat}
    (hlow : x.start ≤ b) (hhigh : b + k ≤ x.stop) :
    (byteList (x.bytes.copySlice (b - x.start) buffer done k)).map some = m.filledBy b done k buffer := by
  have hsize := (h.valid x hx).size_bytes
  have hcount : min k (x.bytes.size - (b - x.start)) = k := by omega
  have hcopied : (((byteList x.bytes).drop (b - x.start)).take k).map some =
      (List.range' b k).map fun y => (m.view? y).map Prod.fst := by
    have hbytes := h.extract_of_mem hx hlow hhigh
    rwa [byteList_extract, Nat.add_sub_cancel_left] at hbytes
  rw [byteList_copySlice, List.map_append, List.map_append, hcopied, hcount, filledBy]

/-- **One segment.** Where a byte may be executed, its segment gives all bytes that the buffer has room for. -/
theorem exists_fetchFrom_succ (h : m.table.WellFormed) (hruns : m.table.runs (a.toNat + done) = true)
    (hroom : done < buffer.size) (n : Nat) :
    ∃ k filled, 0 < k ∧ done + k ≤ buffer.size ∧
      m.fetchFrom a (n + 1) done buffer = m.fetchFrom a n (done + k) filled ∧
      (∀ x, a.toNat + done ≤ x → x < a.toNat + done + k → m.table.runs x = true) ∧
      (byteList filled).map some = m.filledBy (a.toNat + done) done k buffer := by
  obtain ⟨c, hc, -⟩ := runs_iff.mp hruns
  obtain ⟨x, hx, hlow, hhigh⟩ := Table.exists_covers_of_view? hc
  have hstop : x.stop < UInt64.size := x.segment.stop.toNat_lt_size
  have haddress : (a + UInt64.ofNat done).toNat = a.toNat + done :=
    toNat_add_ofNat (hhigh.trans hstop)
  have hfind : m.table.find? (a + UInt64.ofNat done) = some x :=
    h.find?_eq_some_iff.mpr ⟨hx, (Segment.contains_iff _ _).mpr (haddress.symm ▸ ⟨hlow, hhigh⟩)⟩
  have hexecute : x.segment.permissions.execute = true :=
    (h.runs_of_mem hx ⟨hlow, hhigh⟩).symm.trans hruns
  have hsize := (h.valid x hx).size_bytes
  -- as many bytes as the segment has and the buffer needs
  obtain ⟨k, hk⟩ : ∃ k, k = min (x.bytes.size - (a.toNat + done - x.start)) (buffer.size - done) :=
    ⟨_, rfl⟩
  have hinside : a.toNat + done + k ≤ x.stop := by omega
  refine ⟨k, x.bytes.copySlice (a.toNat + done - x.start) buffer done k, by omega, by omega,
    ?_, fun y hy hyk => ?_, byteList_copyCode h hx hlow hinside⟩
  · have hfits : ¬ UInt64.size ≤ a.toNat + done := Nat.not_le.mpr (hhigh.trans hstop)
    simp only [fetchFrom]
    rw [if_neg (Nat.not_le.mpr hroom), if_neg hfits, hfind]
    dsimp only
    rw [if_pos hexecute, hk]
  · exact (h.runs_of_mem hx ⟨hlow.trans hy, hyk.trans_le hinside⟩).trans hexecute

/-- The same number of bytes is in a buffer that was filled. -/
theorem size_of_filledBy {b k : Nat} {filled : ByteArray} (hfits : done + k ≤ buffer.size)
    (hfilled : (byteList filled).map some = m.filledBy b done k buffer) : filled.size = buffer.size := by
  have hlength := congrArg List.length hfilled
  simp only [filledBy, List.length_append, List.length_map, List.length_take, List.length_drop,
    length_byteList, List.length_range'] at hlength
  omega

/-- **The loop.** Unless the first byte is mapped and may not be executed, it ends behind the longest run that
    the buffer has room for, with the bytes of this run in the buffer. -/
theorem exists_fetchFrom (h : m.table.WellFormed) (hn : buffer.size ≤ done + n)
    (hfirst : done = 0 → m.table.runs a.toNat = false → m.view? a.toNat = none) :
    ∃ k filled, k = (m.table.code (a.toNat + done) (buffer.size - done)).length ∧
      m.fetchFrom a n done buffer = (.ok (done + k), filled) ∧
      (byteList filled).map some = m.filledBy (a.toNat + done) done k buffer := by
  -- induction on the segments that are left, of which each fills one byte at least
  induction n generalizing done buffer with
  | zero =>
    have hfull : buffer.size - done = 0 := Nat.sub_eq_zero_of_le hn
    exact ⟨0, buffer, by rw [hfull]; rfl, rfl, (filledBy_zero ..).symm⟩
  | succ n ih =>
    by_cases hroom : buffer.size ≤ done
    · have hfull : buffer.size - done = 0 := Nat.sub_eq_zero_of_le hroom
      refine ⟨0, buffer, by rw [hfull]; rfl, ?_, (filledBy_zero ..).symm⟩
      simp only [fetchFrom]
      exact if_pos hroom
    · cases hruns : m.table.runs (a.toNat + done) with
      | false =>
        refine ⟨0, buffer, by rw [Table.code_of_not_runs hruns]; rfl, ?_, (filledBy_zero ..).symm⟩
        exact fetchFrom_of_not_runs h hruns fun hzero => hfirst hzero (by rwa [hzero] at hruns)
      | true =>
        obtain ⟨k, filled₁, hpos, htaken, hstep, hgiven, hfilled₁⟩ :=
          exists_fetchFrom_succ h hruns (Nat.not_le.mp hroom) n
        have hsize₁ : filled₁.size = buffer.size := size_of_filledBy htaken hfilled₁
        have hfuel : filled₁.size ≤ done + k + n := by omega
        obtain ⟨k', filled, hk', hrest, hfilled⟩ := ih hfuel fun hzero => by omega
        refine ⟨k + k', filled, ?_, ?_, ?_⟩
        · -- the run goes on behind the segment
          have hcode := Table.code_add hgiven (buffer.size - (done + k))
          have hroom' : k + (buffer.size - (done + k)) = buffer.size - done := by omega
          rw [hroom'] at hcode
          rw [hcode, List.length_append, List.length_range', hk', hsize₁, Nat.add_assoc]
        · rw [hstep, hrest, Nat.add_assoc]
        · rw [hfilled, ← Nat.add_assoc, filledBy_add htaken hfilled₁]

/-! ### What a fetch does -/

/-- What it means that `n` bytes of code from `a` on are copied to a buffer. -/
structure FetchesInto (m : Memory) (a : UInt64) (buffer : ByteArray) (n : Nat)
    (result : Except MemoryError Nat × ByteArray) : Prop where
  /-- The buffer has room for them, -/
  le_size : n ≤ buffer.size
  /-- no address wraps around, -/
  lt_size : a.toNat + n < UInt64.size
  /-- all of them may be executed, -/
  permits : ∀ x, a.toNat ≤ x → x < a.toNat + n → m.Permits (·.execute) x
  /-- and if there is room for one more it may not be executed. -/
  stops : n < buffer.size → ¬ m.Permits (·.execute) (a.toNat + n)
  /-- They are at the front of the buffer, and the rest of it is as it was. -/
  filled : (byteList result.2).map some =
    ((List.range' a.toNat n).map fun x => (m.view? x).map Prod.fst) ++
      ((byteList buffer).drop n).map some
  /-- That there are none is an error, if there is room for one. -/
  result : result.1 =
    if n = 0 ∧ buffer.size ≠ 0 then
      .error (if (m.view? a.toNat).isSome then .denied a 1 .execute else .unmapped a 1)
    else .ok n

namespace FetchesInto

variable {m' : Memory} {k : Nat} {r r' : Except MemoryError Nat × ByteArray}

/-- How many bytes are copied depends on what may be executed only. -/
theorem length_unique (h : m.FetchesInto a buffer n r) (h' : m'.FetchesInto a buffer k r')
    (hsame : ∀ x, m'.Permits (·.execute) x ↔ m.Permits (·.execute) x) : k = n := by
  obtain hlt | heq | hgt := Nat.lt_trichotomy k n
  · -- the shorter copy ends where the longer one goes on
    have hstops := h'.stops (hlt.trans_le h.le_size)
    exact absurd ((hsame _).mpr (h.permits _ (Nat.le_add_right ..) (by omega))) hstops
  · exact heq
  · have hstops := h.stops (hgt.trans_le h'.le_size)
    exact absurd ((hsame _).mp (h'.permits _ (Nat.le_add_right ..) (by omega))) hstops

/-- All that is done depends on the cells only. -/
theorem unique (h : m.FetchesInto a buffer n r) (h' : m'.FetchesInto a buffer k r')
    (hview : m'.view? = m.view?) : r' = r := by
  obtain rfl : k = n := h.length_unique h' fun x => by rw [Permits, Permits, hview]
  refine Prod.ext ?_ (byteList_injective ?_)
  · rw [h'.result, h.result, hview]
  · refine (List.map_inj_right fun _ _ => Option.some.inj).mp ?_
    rw [h'.filled, h.filled, hview]

end FetchesInto

/-- A copy of the longest run that the buffer has room for. -/
theorem fetchesInto_of_filledBy {r : Except MemoryError Nat × ByteArray}
    (hn : n = (m.table.code a.toNat buffer.size).length)
    (hfilled : (byteList r.2).map some = m.filledBy a.toNat 0 n buffer)
    (hresult : r.1 =
      if n = 0 ∧ buffer.size ≠ 0 then
        .error (if (m.view? a.toNat).isSome then .denied a 1 .execute else .unmapped a 1)
      else .ok n) : m.FetchesInto a buffer n r := by
  have hpermits : ∀ x, a.toNat ≤ x → x < a.toNat + n → m.Permits (·.execute) x := by
    intro x hax hxn
    refine runs_iff.mp (Table.runs_of_mem_code (a := a.toNat) (n := buffer.size) ?_)
    rw [Table.code_eq_range', ← hn]
    exact List.mem_range'_1.mpr ⟨hax, hxn⟩
  constructor
  case le_size =>
    rw [hn, Table.code]
    exact (List.takeWhile_sublist _).length_le.trans_eq List.length_range'
  case lt_size =>
    cases hzero : n with
    | zero => exact a.toNat_lt_size
    | succ k =>
      -- the segment of the last byte ends within 64 bits
      obtain ⟨c, hc, -⟩ := hpermits (a.toNat + k) (Nat.le_add_right ..) (by omega)
      obtain ⟨x, -, -, hhigh⟩ := Table.exists_covers_of_view? hc
      exact Nat.lt_of_le_of_lt hhigh x.segment.stop.toNat_lt_size
  case permits => exact hpermits
  case stops =>
    intro hlt hmore
    rw [← runs_iff, hn, Table.not_runs_of_length_code _ _ _ (hn ▸ hlt)] at hmore
    cases hmore
  case filled =>
    rw [hfilled, filledBy, List.take_zero, List.map_nil, List.nil_append, Nat.zero_add]
  case result => exact hresult

/-- What is done where the first byte is mapped and may not be executed. -/
theorem fetchInto_of_denied (h : m.table.WellFormed) (hroom : buffer.size ≠ 0)
    (hno : m.table.runs a.toNat = false) (hmapped : (m.view? a.toNat).isSome) :
    m.fetchInto a buffer = (.error (.denied a 1 .execute), buffer) := by
  obtain ⟨x, hfind⟩ : ∃ x, m.table.find? a = some x := by
    rwa [← isMapped_eq h, isMapped, Option.isSome_iff_exists] at hmapped
  obtain ⟨hx, hlow, hhigh, -⟩ := h.covers_of_find? hfind
  have hexecute : x.segment.permissions.execute = false :=
    (h.runs_of_mem hx ⟨hlow, hhigh⟩).symm.trans hno
  obtain ⟨n, hn⟩ := Nat.exists_eq_succ_of_ne_zero hroom
  have hfits : ¬ UInt64.size ≤ a.toNat := Nat.not_le.mpr a.toNat_lt_size
  have hloop : m.fetchFrom a buffer.size 0 buffer = (.error (.denied a 1 .execute), buffer) := by
    have haddress : a + UInt64.ofNat 0 = a := UInt64.add_zero a
    rw [hn, fetchFrom, hn, haddress, hfind, Nat.add_zero, if_neg (Nat.not_succ_le_zero n), if_neg hfits]
    dsimp only
    rw [hexecute]
    rfl
  rw [fetchInto, hloop]

/-- What is done where the loop ends without an error. -/
theorem fetchInto_of_loop {k : Nat} {filled : ByteArray} (hroom : buffer.size ≠ 0)
    (hloop : m.fetchFrom a buffer.size 0 buffer = (.ok k, filled)) :
    m.fetchInto a buffer = (if k = 0 then .error (.unmapped a 1) else .ok k, filled) := by
  rw [fetchInto, hloop]
  cases k with
  | zero => exact congrArg (·, filled) (if_neg hroom)
  | succ k => rfl

/-- **Fetches to a buffer.** They copy the longest run that the buffer has room for. -/
theorem fetchesInto_fetchInto (h : m.table.WellFormed) (a : UInt64) (buffer : ByteArray) :
    m.FetchesInto a buffer (m.table.code a.toNat buffer.size).length (m.fetchInto a buffer) := by
  -- without room nothing is looked at, and a first byte that is denied is the only error that names it
  by_cases hroom : buffer.size = 0
  · have hcode : m.table.code a.toNat buffer.size = [] := by rw [hroom]; rfl
    have hnothing : m.fetchInto a buffer = (.ok 0, buffer) := by
      rw [fetchInto, hroom]
      rfl
    rw [hnothing, hcode]
    refine fetchesInto_of_filledBy (congrArg List.length hcode.symm) (filledBy_zero ..).symm ?_
    exact (if_neg fun hneeds => hneeds.2 hroom).symm
  · by_cases hdenied : m.table.runs a.toNat = false ∧ (m.view? a.toNat).isSome
    · obtain ⟨hno, hmapped⟩ := hdenied
      have hcode : m.table.code a.toNat buffer.size = [] := Table.code_of_not_runs hno _
      rw [fetchInto_of_denied h hroom hno hmapped, hcode]
      refine fetchesInto_of_filledBy (congrArg List.length hcode.symm) (filledBy_zero ..).symm ?_
      rw [if_pos ⟨List.length_nil, hroom⟩, if_pos hmapped]
    · have hfirst : m.table.runs a.toNat = false → m.view? a.toNat = none := by
        intro hno
        rw [← Option.not_isSome_iff_eq_none]
        exact fun hmapped => hdenied ⟨hno, hmapped⟩
      -- the loop may be followed for as many turns as there is room
      have hfuel : buffer.size ≤ 0 + buffer.size := Nat.le_add_left ..
      obtain ⟨k, filled, hk, hloop, hfilled⟩ := exists_fetchFrom h hfuel fun _ => hfirst
      rw [Nat.zero_add] at hloop
      rw [Nat.add_zero, Nat.sub_zero] at hk
      rw [← hk, fetchInto_of_loop hroom hloop]
      refine fetchesInto_of_filledBy hk hfilled ?_
      by_cases hzero : k = 0
      · -- no byte was found, so the first one is not mapped
        have hno : m.table.runs a.toNat = false := by
          have hstop := m.table.not_runs_of_length_code a.toNat buffer.size (by omega)
          rwa [← hk, hzero] at hstop
        have hnone := hfirst hno
        rw [if_pos hzero, if_pos ⟨hzero, hroom⟩, hnone]
        rfl
      · rw [if_neg hzero, if_neg fun hnone => hzero hnone.1]

/-- What a fetch yields, put at the front of a buffer. -/
def inFront (buffer : ByteArray) : Except MemoryError ByteArray → Except MemoryError Nat × ByteArray
  | .ok bs => (.ok bs.size, bs.copySlice 0 buffer 0 bs.size)
  | .error e => (.error e, buffer)

/-- **Fetches.** What is yielded is what would be copied. -/
theorem fetchesInto_fetch (h : m.table.WellFormed) (a : UInt64) (buffer : ByteArray) :
    m.FetchesInto a buffer (m.table.code a.toNat buffer.size).length
      (inFront buffer (m.fetch a buffer.size)) := by
  have hbytes := h.byteList_runnable a.toNat buffer.size
  have hsize : (m.table.runnable a.toNat buffer.size).size =
      (m.table.code a.toNat buffer.size).length := by
    have hlength := congrArg List.length hbytes
    simpa using hlength
  -- the fetched bytes are laid in front; an error leaves the buffer as it was
  simp only [fetch, isMapped_eq h, hsize]
  split
  · next hnone =>
    obtain ⟨hzero, hroom⟩ : (m.table.code a.toNat buffer.size).length = 0 ∧ buffer.size ≠ 0 := by
      simpa using hnone
    have hfailed : ∀ b : Bool, inFront buffer
        (if b then .error (.denied a 1 .execute) else .error (.unmapped a 1)) =
          (.error (if b then .denied a 1 .execute else .unmapped a 1), buffer) := fun b => by
      cases b <;> rfl
    rw [hfailed, hzero]
    refine fetchesInto_of_filledBy hzero.symm (filledBy_zero ..).symm ?_
    exact (if_pos ⟨rfl, hroom⟩).symm
  · next hsome =>
    refine fetchesInto_of_filledBy rfl ?_ ?_
    · have hall : (byteList (m.table.runnable a.toNat buffer.size)).take
          (m.table.runnable a.toNat buffer.size).size =
            byteList (m.table.runnable a.toNat buffer.size) :=
        List.take_of_length_le (Nat.le_refl _)
      rw [Table.code_eq_range'] at hbytes
      show (byteList ((m.table.runnable a.toNat buffer.size).copySlice 0 buffer 0 _)).map some = _
      rw [byteList_copySlice, List.drop_zero, hall, Nat.sub_zero, Nat.min_self, hsize, List.map_append,
        List.map_append, hbytes, filledBy]
      rfl
    · rw [if_neg fun hnone => hsome (by simpa using hnone)]
      exact congrArg Except.ok hsize

/-- **Fetches.** In a reachable address space, a fetch to a buffer copies the longest run of bytes, within 64-bit
    addresses, that may be executed and that the buffer has room for, and leaves the rest of the buffer as it
    is.  It fails if and only if there is room but the first byte may not be executed; the error says whether
    this byte is mapped.  How many bytes are copied depends on what may be executed only, and all that is done
    on the cells only, not on how they are divided into segments.  Fetches along the table yield the same. -/
theorem fetchInto_longestRun (h : m.Reachable) (a : UInt64) (buffer : ByteArray) :
    ∃ n, m.FetchesInto a buffer n (m.fetchInto a buffer) ∧
      (∀ m' : Memory, m'.Reachable → (∀ x, m'.Permits (·.execute) x ↔ m.Permits (·.execute) x) →
        m'.FetchesInto a buffer n (m'.fetchInto a buffer)) ∧
      (∀ m' : Memory, m'.Reachable → m'.view? = m.view? → m'.fetchInto a buffer = m.fetchInto a buffer) ∧
      m.fetchInto a buffer = inFront buffer (m.fetch a buffer.size) := by
  have hcopy := fetchesInto_fetchInto h.wellFormed a buffer
  refine ⟨_, hcopy, fun m' h' hsame => ?_, fun m' h' hview => ?_, ?_⟩
  · have hcopy' := fetchesInto_fetchInto h'.wellFormed a buffer
    rwa [hcopy.length_unique hcopy' hsame] at hcopy'
  · exact hcopy.unique (fetchesInto_fetchInto h'.wellFormed a buffer) hview
  · exact (fetchesInto_fetch h.wellFormed a buffer).unique hcopy rfl

/-- Code in two segments side by side, followed by data. -/
def codeInParts : Memory :=
  (empty ⟨0x10000, 0x20000⟩).afterCalls
    [.map ⟨0x1000, 0x1002, .readExecute, 0, "front"⟩ (packed [0x90, 0x90]),
      .map ⟨0x1002, 0x1004, .readExecute, 0, "back"⟩ (packed [0x90, 0xc3]),
      .map ⟨0x1004, 0x1008, .readWrite, 0, "data"⟩ ByteArray.empty]

/-- Of six bytes that the buffer has room for four are copied, from both segments.  Where the data begins nothing
    can be fetched. -/
theorem fetchInto_longestRun_inParts :
    codeInParts.Reachable ∧
      codeInParts.fetchInto 0x1000 (packed [1, 2, 3, 4, 5, 6]) =
        (.ok 4, packed [0x90, 0x90, 0x90, 0xc3, 5, 6]) ∧
      codeInParts.FetchesInto 0x1000 (packed [1, 2, 3, 4, 5, 6]) 4
        (codeInParts.fetchInto 0x1000 (packed [1, 2, 3, 4, 5, 6])) ∧
      codeInParts.fetchInto 0x1004 (packed [7]) = (.error (.denied 0x1004 1 .execute), packed [7]) := by
  have h : codeInParts.Reachable := ⟨_, _, rfl⟩
  have hcopied : codeInParts.fetchInto 0x1000 (packed [1, 2, 3, 4, 5, 6]) =
      (.ok 4, packed [0x90, 0x90, 0x90, 0xc3, 5, 6]) := by decide +kernel
  obtain ⟨n, hn, -⟩ := fetchInto_longestRun h 0x1000 (packed [1, 2, 3, 4, 5, 6])
  refine ⟨h, hcopied, ?_, by decide +kernel⟩
  -- the length is the one that is returned
  have hresult := hn.result
  rw [hcopied] at hresult
  split at hresult
  · cases hresult
  · cases hresult
    exact hn

end Memory

end Amd64
