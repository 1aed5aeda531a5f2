import Amd64.Machine.Bus
import Amd64.Proofs.Loops
import Amd64.Proofs.Memory.FetchInto

namespace Amd64

/-!
# Accesses as loops over segments

An access walks from one segment to the next, with one lookup for each. Every segment holds an address, so each
turn of such a walk takes at least one byte, and a walk has no more turns than the access has bytes.

* `Memory.checkLoop`, `Memory.copyOutLoop`, `Memory.copyInLoop`, `Memory.fetchLoop` — the walks;
* `Memory.ends_checkLoop`, … — what each of their turns does;
* `Memory.outcome_within_checkLoop`, … — so what they have done after one turn for each byte;
* `Memory.completes_loadByTurns`, `Memory.completes_storeByTurns`, `Memory.completes_fetchByTurns` — accesses by
  walks that may have one turn for each byte are the accesses along the table;
* `Walked`, `Walked.congruence` — hence a bus that makes its accesses in this way.
-/

/-! ### Walks along the table -/

namespace Table.WellFormed

variable {t : Table} {x : Mapping} {ok : Permissions → Bool} {b k n : Nat}

/-- A walk that begins outside of all mappings stops at once. -/
theorem obstacle?_of_unmapped (h : t.WellFormed) (hn : n ≠ 0) (hview : t.view? b = none) :
    t.obstacle? ok b n = some .unmapped := by
  rw [h.obstacle?_eq, cells_of_pos _ _ hn, hview]
  rfl

/-- In a mapping whose permissions are not enough, the first byte is an obstacle. -/
theorem obstacle?_of_denied (h : t.WellFormed) (hn : n ≠ 0) (hx : x ∈ t) (hb : x.start ≤ b ∧ b < x.stop)
    (hok : ok x.segment.permissions = false) : t.obstacle? ok b n = some .denied := by
  obtain ⟨v, hv⟩ := h.exists_view?_of_mem hx hb
  rw [h.obstacle?_eq, cells_of_pos _ _ hn, hv]
  simp [Obstacle.ofCell?, hok]

/-- In a mapping with enough permissions there are no obstacles. -/
theorem obstacle?_add (h : t.WellFormed) (ok : Permissions → Bool) (hx : x ∈ t) (hlow : x.start ≤ b)
    (hhigh : b + k ≤ x.stop) (hok : ok x.segment.permissions = true) (n : Nat) :
    t.obstacle? ok b (k + n) = t.obstacle? ok (b + k) n := by
  have hnone : (t.cells b k).findSome? (Obstacle.ofCell? ok) = none := by
    refine List.findSome?_eq_none_iff.mpr fun c hc => ?_
    obtain ⟨y, hy, rfl⟩ := List.mem_map.mp hc
    obtain ⟨hby, hyk⟩ := List.mem_range'_1.mp hy
    obtain ⟨v, hv⟩ := h.exists_view?_of_mem hx ⟨hlow.trans hby, hyk.trans_le hhigh⟩
    rw [hv]
    simp [Obstacle.ofCell?, hok]
  rw [h.obstacle?_eq, h.obstacle?_eq, cells_append, List.findSome?_append, hnone, Option.none_or]

/-- The bytes of a mapping are read first, then those behind them. -/
theorem gather_add (h : t.WellFormed) (hx : x ∈ t) (hlow : x.start ≤ b) (hhigh : b + k ≤ x.stop)
    (hmapped : none ∉ t.cells b (k + n)) :
    t.gather b (k + n) = x.bytes.extract (b - x.start) (b - x.start + k) ++ t.gather (b + k) n := by
  have hrest : none ∉ t.cells (b + k) n := fun hin =>
    hmapped (by rw [cells_append]; exact List.mem_append_right _ hin)
  refine byteList_injective ((List.map_inj_right fun _ _ => Option.some.inj).mp ?_)
  rw [byteList_append, List.map_append, h.byteList_gather hmapped, h.byteList_gather hrest,
    h.extract_of_mem hx hlow hhigh, cells_append, List.map_append, cells, List.map_map]
  rfl

/-- A byte that cannot be run is not fetched. -/
theorem runnable_of_not_runs (h : t.WellFormed) (hno : t.runs b = false) (n : Nat) :
    t.runnable b n = ByteArray.empty := by
  refine byteList_injective ((List.map_inj_right fun _ _ => Option.some.inj).mp ?_)
  rw [h.byteList_runnable, code_of_not_runs hno]
  rfl

/-- Where nothing is fetched the first byte cannot be run. -/
theorem not_runs_of_runnable_eq_empty (h : t.WellFormed) (hn : n ≠ 0) (hnone : t.runnable b n = ByteArray.empty) :
    t.runs b = false := by
  have hlength := congrArg List.length (h.byteList_runnable b n)
  rw [List.length_map, List.length_map, hnone, length_byteList, ByteArray.size_empty] at hlength
  have hstop := not_runs_of_length_code t b n (by omega)
  rwa [← hlength, Nat.add_zero] at hstop

/-- Behind the bytes of a mapping that may be executed, the run goes on. -/
theorem runnable_add (h : t.WellFormed) (hx : x ∈ t) (hlow : x.start ≤ b) (hhigh : b + k ≤ x.stop)
    (hexecute : x.segment.permissions.execute = true) (n : Nat) :
    t.runnable b (k + n) = x.bytes.extract (b - x.start) (b - x.start + k) ++ t.runnable (b + k) n := by
  have hruns : ∀ y, b ≤ y → y < b + k → t.runs y = true := fun y hby hyk =>
    (h.runs_of_mem hx ⟨hlow.trans hby, hyk.trans_le hhigh⟩).trans hexecute
  refine byteList_injective ((List.map_inj_right fun _ _ => Option.some.inj).mp ?_)
  rw [byteList_append, List.map_append, h.byteList_runnable, h.byteList_runnable, code_add hruns,
    List.map_append, h.extract_of_mem hx hlow hhigh]

end Table.WellFormed

namespace Memory

/-! ### The walks -/

/-- Where the check of an access is, and how many bytes it has left. -/
structure CheckCursor where
  address : UInt64
  left : Nat

/-- The check of an access to `n` bytes from `a` on. The cursor moves to the end of a segment if there is more to
    check behind it. -/
def checkLoop (access : Access) (enforce : Bool) (a : UInt64) (n : Nat) :
    Loop MemoryError Memory CheckCursor where
  goesOn cursor _ := 0 < cursor.left
  turn cursor := do
    let some x := (← get).table.find? cursor.address | throw (.unmapped a (UInt64.ofNat n))
    if enforce && !x.segment.permissions.allows access then throw (.denied a (UInt64.ofNat n) access)
    let rest := cursor.left - min (x.stop - cursor.address.toNat) cursor.left
    return .yield ⟨if 0 < rest then x.segment.stop else cursor.address, rest⟩

/-- Copies `n` bytes from `a` on behind those that were copied before. -/
def copyOutLoop (a : UInt64) (n : Nat) : Loop MemoryError Memory ByteArray where
  goesOn copied _ := copied.size < n
  turn copied := do
    let address := a + UInt64.ofNat copied.size
    let some x := (← get).table.find? address | throw (.unmapped a (UInt64.ofNat n))
    let offset := address.toNat - x.start
    let count := min (x.bytes.size - offset) (n - copied.size)
    return .yield (copied ++ x.bytes.extract offset (offset + count))

/-- Replaces the bytes from `a` on by those of `data`, of which some were written before. -/
def copyInLoop (a : UInt64) (data : ByteArray) : Loop MemoryError Memory Nat where
  goesOn written _ := written < data.size
  turn written := do
    let address := a + UInt64.ofNat written
    let some x := (← get).table.find? address | throw (.unmapped a (UInt64.ofNat data.size))
    let offset := address.toNat - x.start
    let count := min (x.bytes.size - offset) (data.size - written)
    modifyTable (Table.insert (x.overwrite offset data written count))
    return .yield (written + count)

/-- Copies `n` bytes of code from `a` on behind those that were copied before, as far as they may be executed. -/
def fetchLoop (a : UInt64) (n : Nat) : Loop MemoryError Memory ByteArray where
  goesOn copied _ := copied.size < n
  turn copied := do
    if UInt64.size ≤ a.toNat + copied.size then return .done copied
    let some x := (← get).table.find? (a + UInt64.ofNat copied.size) | return .done copied
    if !x.segment.permissions.execute then
      if copied.size = 0 then throw (.denied a 1 .execute)
      return .done copied
    let offset := a.toNat + copied.size - x.start
    let count := min (x.bytes.size - offset) (n - copied.size)
    return .yield (copied ++ x.bytes.extract offset (offset + count))

variable {m : Memory} {a : UInt64} {n : Nat}

section
variable {ok : Permissions → Bool} {done : Nat}
  (hpermits : ∀ x, a.toNat ≤ x → x < a.toNat + n → m.Permits ok x) (hdone : done < n)

include hpermits hdone

/-- Addresses of bytes that are mapped do not wrap around. -/
theorem toNat_add_of_lt : (a + UInt64.ofNat done).toNat = a.toNat + done :=
  toNat_add_of_permits (Nat.sub_ne_zero_of_lt hdone) (by rwa [Nat.add_sub_of_le hdone.le])

/-- A lookup of a byte that is mapped finds its segment. -/
theorem find?_ne_none (h : m.table.WellFormed) : m.table.find? (a + UInt64.ofNat done) ≠ none := by
  intro hfind
  obtain ⟨c, hc, -⟩ := hpermits (a.toNat + done) (by omega) (by omega)
  have hnone := h.view?_of_find?_eq_none hfind
  rw [toNat_add_of_lt hpermits hdone] at hnone
  exact Option.some_ne_none c (hc.symm.trans hnone)

end

/-- Bytes that are copied behind others. -/
theorem size_append_extract (copied : ByteArray) {bytes : ByteArray} {offset count : Nat}
    (h : offset + count ≤ bytes.size) :
    (copied ++ bytes.extract offset (offset + count)).size = copied.size + count := by
  rw [ByteArray.size_append, ByteArray.size_extract]
  omega

/-! ### Checks -/

section
variable {access : Access} {enforce : Bool}

/-- What an obstacle to an access of `n` bytes at `a` means for it. -/
def verdict (access : Access) (a : UInt64) (n : Nat) : Option Obstacle → Except MemoryError Unit
  | none => .ok ()
  | some .unmapped => .error (.unmapped a (UInt64.ofNat n))
  | some .denied => .error (.denied a (UInt64.ofNat n) access)

/-- A turn of the check looks at one mapping: none is there, it does not allow the access, or it is passed. -/
theorem outcome_turn_checkLoop (cursor : CheckCursor) (m : Memory) :
    outcome ((checkLoop access enforce a n).turn cursor) m =
      match m.table.find? cursor.address with
      | none => (.error (.unmapped a (UInt64.ofNat n)), m)
      | some x =>
        if (!enforce || x.segment.permissions.allows access) = true then
          let rest := cursor.left - min (x.stop - cursor.address.toNat) cursor.left
          (.ok (.yield ⟨if 0 < rest then x.segment.stop else cursor.address, rest⟩), m)
        else (.error (.denied a (UInt64.ofNat n) access), m) := by
  simp only [checkLoop, outcome_bind, outcome_get]
  cases m.table.find? cursor.address with
  | none => rfl
  | some x => cases enforce <;> cases hallows : x.segment.permissions.allows access <;> simp [hallows]

/-- **Checks.** A turn meets an obstacle or leaves fewer bytes to check. -/
theorem ends_checkLoop (access : Access) (enforce : Bool) (a : UInt64) (n : Nat) :
    (checkLoop access enforce a n).Ends (fun _ m => m.table.WellFormed) (fun cursor _ => cursor.left)
      fun cursor m r => r.2 = m ∧ (r.1.map fun _ => ()) = verdict access a n
        (m.table.obstacle? (fun p => !enforce || p.allows access) cursor.address.toNat cursor.left) where
  stops cursor m h hstops := by
    have hleft : cursor.left = 0 := Nat.eq_zero_of_not_pos (of_decide_eq_false hstops)
    refine ⟨rfl, ?_⟩
    rw [h.obstacle?_eq, hleft]
    rfl
  turns cursor m h hgoesOn := by
    have hleft : cursor.left ≠ 0 := Nat.ne_of_gt (of_decide_eq_true hgoesOn)
    rw [outcome_turn_checkLoop]
    cases hfind : m.table.find? cursor.address with
    | none =>
      refine .fails ⟨rfl, ?_⟩
      rw [h.obstacle?_of_unmapped hleft (h.view?_of_find?_eq_none hfind)]
      rfl
    | some x =>
      obtain ⟨hx, hlow, hhigh, -⟩ := h.covers_of_find? hfind
      cases hok : !enforce || x.segment.permissions.allows access with
      | false =>
        dsimp only
        rw [hok, if_neg Bool.false_ne_true]
        refine .fails ⟨rfl, ?_⟩
        rw [h.obstacle?_of_denied hleft hx ⟨hlow, hhigh⟩ hok]
        rfl
      | true =>
        have hinside : cursor.address.toNat + min (x.stop - cursor.address.toNat) cursor.left ≤ x.stop := by omega
        have hchecked := h.obstacle?_add (fun p => !enforce || p.allows access) hx hlow hinside hok
          (cursor.left - min (x.stop - cursor.address.toNat) cursor.left)
        rw [Nat.add_sub_of_le (Nat.min_le_right _ _)] at hchecked
        dsimp only
        rw [hok, if_pos rfl]
        refine .again h (by dsimp only; omega) fun r hr => ⟨hr.1, hr.2.trans (congrArg _ ?_)⟩
        rw [hchecked]
        dsimp only
        split
        · next hrest =>
          -- there is more to check, from the end of this segment on
          have hnext : cursor.address.toNat + min (x.stop - cursor.address.toNat) cursor.left =
              x.segment.stop.toNat := by
            show _ = x.stop
            omega
          rw [hnext]
        · next hrest =>
          rw [Nat.eq_zero_of_not_pos hrest, h.obstacle?_eq, h.obstacle?_eq]
          rfl

/-- A check that may have one turn for each byte has its verdict. -/
theorem outcome_within_checkLoop (h : m.table.WellFormed) (access : Access) (enforce : Bool) (a : UInt64) (n : Nat) :
    ∃ cursor, outcome ((checkLoop access enforce a n).within n ⟨a, n⟩) m =
      match m.accessError? access enforce a n with
      | none => (.ok (some cursor), m)
      | some e => (.error e, m) := by
  have hends := ends_checkLoop access enforce a n
  obtain ⟨⟨result, m'⟩, ⟨hsame, hresult⟩, hwithin⟩ := hends.exists_within (a := ⟨a, n⟩) h
  obtain rfl : m' = m := hsame
  rw [hwithin n (Nat.le_refl n), accessError?]
  dsimp only at hresult ⊢
  cases hobstacle : m'.table.obstacle? (fun p => !enforce || p.allows access) a.toNat n with
  | none =>
    rw [hobstacle] at hresult
    cases result with
    | error e => cases hresult
    | ok cursor => exact ⟨cursor, rfl⟩
  | some obstacle =>
    rw [hobstacle] at hresult
    cases result with
    | error e =>
      refine ⟨⟨a, n⟩, ?_⟩
      -- the error of the walk is the one of the first obstacle
      cases obstacle <;> (cases hresult; rfl)
    | ok cursor => cases obstacle <;> cases hresult

end

/-! ### Reads -/

/-- A turn of a copy out of memory takes what one mapping has. -/
theorem outcome_turn_copyOutLoop (copied : ByteArray) (m : Memory) :
    outcome ((copyOutLoop a n).turn copied) m =
      match m.table.find? (a + UInt64.ofNat copied.size) with
      | none => (.error (.unmapped a (UInt64.ofNat n)), m)
      | some x =>
        let offset := (a + UInt64.ofNat copied.size).toNat - x.start
        let count := min (x.bytes.size - offset) (n - copied.size)
        (.ok (.yield (copied ++ x.bytes.extract offset (offset + count))), m) := by
  simp only [copyOutLoop, outcome_bind, outcome_get]
  cases m.table.find? (a + UInt64.ofNat copied.size) <;> rfl

/-- **Copying out.** A turn copies bytes of one segment, and if all bytes are mapped none of them is missing. -/
theorem ends_copyOutLoop (ok : Permissions → Bool) (a : UInt64) (n : Nat) :
    (copyOutLoop a n).Ends (fun copied m => m.table.WellFormed ∧ copied.size ≤ n) (fun copied _ => n - copied.size)
      fun copied m r => (∀ x, a.toNat ≤ x → x < a.toNat + n → m.Permits ok x) →
        r = (.ok (copied ++ m.table.gather (a.toNat + copied.size) (n - copied.size)), m) where
  stops copied m h hstops hpermits := by
    have hall : n - copied.size = 0 := Nat.sub_eq_zero_of_le (Nat.not_lt.mp (of_decide_eq_false hstops))
    have hnothing : m.table.gather (a.toNat + copied.size) 0 = ByteArray.empty := by
      cases m.table <;> rfl
    rw [hall, hnothing, ByteArray.append_empty]
  turns copied m h hgoesOn := by
    obtain ⟨h, hle⟩ := h
    have hmore : copied.size < n := of_decide_eq_true hgoesOn
    rw [outcome_turn_copyOutLoop]
    cases hfind : m.table.find? (a + UInt64.ofNat copied.size) with
    -- this cannot happen when the whole range is permitted
    | none => exact .fails fun hpermits => absurd hfind (find?_ne_none hpermits hmore h)
    | some x =>
      obtain ⟨hx, hlow, hhigh, hsize⟩ := h.covers_of_find? hfind
      obtain ⟨count, hcount⟩ : ∃ count, count =
        min (x.bytes.size - ((a + UInt64.ofNat copied.size).toNat - x.start)) (n - copied.size) := ⟨_, rfl⟩
      have hcopied := size_append_extract copied
        (show (a + UInt64.ofNat copied.size).toNat - x.start + count ≤ x.bytes.size by omega)
      dsimp only
      rw [← hcount]
      refine .again ⟨h, by omega⟩ (by omega) fun r hr hpermits => ?_
      have hat := toNat_add_of_lt hpermits hmore
      -- the chunk and what follows it are the cells that were left
      have hparts : count + (n - (copied.size + count)) = n - copied.size := by omega
      have hmapped : none ∉ m.table.cells (a.toNat + copied.size) (count + (n - (copied.size + count))) :=
        none_not_mem_cells fun y hy hyn => hpermits y (by omega) (by omega)
      have hgather := h.gather_add hx (hat ▸ hlow) (by omega) hmapped
      rw [hr hpermits, hcopied, hat, ← Nat.add_assoc, ByteArray.append_assoc, ← hgather, hparts]

/-- A copy of bytes that are mapped, which may have one turn for each of them. -/
theorem outcome_within_copyOutLoop (h : m.table.WellFormed) {ok : Permissions → Bool}
    (hpermits : ∀ x, a.toNat ≤ x → x < a.toNat + n → m.Permits ok x) :
    outcome ((copyOutLoop a n).within n ByteArray.empty) m = (.ok (some (m.table.gather a.toNat n)), m) := by
  obtain ⟨r, hr, hwithin⟩ := (ends_copyOutLoop ok a n).exists_within (a := ByteArray.empty) ⟨h, Nat.zero_le n⟩
  obtain rfl := hr hpermits
  rw [hwithin n (Nat.sub_le n _)]
  simp [Except.map]

/-! ### Writes -/

/-- A turn of a copy into memory replaces what one mapping has. -/
theorem outcome_turn_copyInLoop (data : ByteArray) (written : Nat) (m : Memory) :
    outcome ((copyInLoop a data).turn written) m =
      match m.table.find? (a + UInt64.ofNat written) with
      | none => (.error (.unmapped a (UInt64.ofNat data.size)), m)
      | some x =>
        let offset := (a + UInt64.ofNat written).toNat - x.start
        let count := min (x.bytes.size - offset) (data.size - written)
        (.ok (.yield (written + count)),
          ⟨m.window, Table.insert (x.overwrite offset data written count) m.table⟩) := by
  simp only [copyInLoop, outcome_bind, outcome_get]
  cases m.table.find? (a + UInt64.ofNat written) <;> rfl

/-- **Copying in.** A turn replaces bytes of one segment, and if all bytes are mapped none of them is missing. -/
theorem ends_copyInLoop (ok : Permissions → Bool) (a : UInt64) (data : ByteArray) :
    (copyInLoop a data).Ends (fun written m => m.table.WellFormed ∧ written ≤ data.size)
      (fun written _ => data.size - written)
      fun written m r => (∀ x, a.toNat ≤ x → x < a.toNat + data.size → m.Permits ok x) →
        r.1 = .ok data.size ∧ r.2.table.WellFormed ∧ r.2.window = m.window ∧ r.2.segments = m.segments ∧
          r.2.view? = overlay m.view? (a.toNat + written) ((byteList data).drop written) where
  stops written m h hstops hpermits := by
    have hall : written = data.size := Nat.le_antisymm h.2 (Nat.not_lt.mp (of_decide_eq_false hstops))
    have hnothing : (byteList data).drop written = [] := List.drop_eq_nil_of_le hall.ge
    exact ⟨by rw [hall], h.1, rfl, rfl, by rw [hnothing, overlay_nil]⟩
  turns written m h hgoesOn := by
    obtain ⟨h, hle⟩ := h
    have hmore : written < data.size := of_decide_eq_true hgoesOn
    rw [outcome_turn_copyInLoop]
    cases hfind : m.table.find? (a + UInt64.ofNat written) with
    | none => exact .fails fun hpermits => absurd hfind (find?_ne_none hpermits hmore h)
    | some x =>
      obtain ⟨hx, hlow, hhigh, hsize⟩ := h.covers_of_find? hfind
      obtain ⟨count, hcount⟩ : ∃ count, count =
        min (x.bytes.size - ((a + UInt64.ofNat written).toNat - x.start)) (data.size - written) := ⟨_, rfl⟩
      obtain ⟨hwf, hsegments, hview⟩ := h.insert_overwrite hx hlow
        (show (a + UInt64.ofNat written).toNat + count ≤ x.stop by omega)
        (show written + count ≤ data.size by omega)
      dsimp only
      rw [← hcount]
      refine .again ⟨hwf, by omega⟩ (by omega) fun r hr hpermits => ?_
      rw [toNat_add_of_lt hpermits hmore] at hview hsegments hr
      have hlaid : view? ⟨m.window, Table.insert (x.overwrite (a.toNat + written - x.start) data written count)
          m.table⟩ = overlay m.view? (a.toNat + written) (((byteList data).drop written).take count) := hview
      obtain ⟨hok, hwf', hwindow', hsegments', hview'⟩ := hr fun y hay hy =>
        (permits_of_overlay hlaid ok y).mpr (hpermits y hay hy)
      refine ⟨hok, hwf', hwindow', hsegments'.trans hsegments, ?_⟩
      -- what the segment took lies in front of what the others took
      have hparts := overlay_take_drop m.view? (a.toNat + written) count ((byteList data).drop written)
      rw [hview', hlaid, ← hparts, List.drop_drop, Nat.add_assoc]

/-- Bytes that may be written are written with one turn for each of them. -/
theorem outcome_within_copyInLoop (h : m.table.WellFormed) {enforce : Bool} {data : ByteArray}
    (hpermits : ∀ x, a.toNat ≤ x → x < a.toNat + data.size → m.Permits (fun p => !enforce || p.allows .write) x) :
    ∃ m', outcome ((copyInLoop a data).within data.size 0) m = (.ok (some data.size), m') ∧
      outcome (store enforce a data) m = (.ok (), m') := by
  have hends := ends_copyInLoop (fun p => !enforce || p.allows .write) a data
  obtain ⟨⟨result, m'⟩, hr, hwithin⟩ := hends.exists_within (a := 0) ⟨h, Nat.zero_le _⟩
  obtain ⟨hok, hleft⟩ := hr hpermits
  obtain rfl : result = .ok data.size := hok
  exact ⟨m', hwithin data.size (Nat.sub_le _ _), (store_eq_ok_iff h).mpr ⟨hpermits, hleft⟩⟩

/-! ### Fetches -/

/-- A turn of a fetch takes what one mapping has, if it can be run. -/
theorem outcome_turn_fetchLoop (copied : ByteArray) (m : Memory) :
    outcome ((fetchLoop a n).turn copied) m =
      if UInt64.size ≤ a.toNat + copied.size then (.ok (.done copied), m)
      else match m.table.find? (a + UInt64.ofNat copied.size) with
        | none => (.ok (.done copied), m)
        | some x =>
          if x.segment.permissions.execute = true then
            let offset := a.toNat + copied.size - x.start
            let count := min (x.bytes.size - offset) (n - copied.size)
            (.ok (.yield (copied ++ x.bytes.extract offset (offset + count))), m)
          else if copied.size = 0 then (.error (.denied a 1 .execute), m)
          else (.ok (.done copied), m) := by
  simp only [fetchLoop]
  split
  · rfl
  · simp only [outcome_bind, outcome_get]
    cases m.table.find? (a + UInt64.ofNat copied.size) with
    | none => rfl
    | some x =>
      cases hexecute : x.segment.permissions.execute <;> by_cases hzero : copied.size = 0 <;>
        simp [hexecute, hzero]

/-- The first of `n` bytes of code is mapped and may not be executed. -/
def FirstDenied (m : Memory) (a : UInt64) (n : Nat) : Prop :=
  0 < n ∧ m.view? a.toNat ≠ none ∧ m.table.runs a.toNat = false

/-- What a fetch of `n` bytes from `a` on ends with, where the bytes in front were copied before. -/
structure FetchesRest (a : UInt64) (n : Nat) (copied : ByteArray) (m : Memory)
    (r : Except MemoryError ByteArray × Memory) : Prop where
  denied : copied.size = 0 ∧ m.FirstDenied a n → r = (.error (.denied a 1 .execute), m)
  copies : ¬ (copied.size = 0 ∧ m.FirstDenied a n) →
    r = (.ok (copied ++ m.table.runnable (a.toNat + copied.size) (n - copied.size)), m)

variable {copied : ByteArray}

/-- The copy is over where a byte may not be executed. -/
theorem fetchesRest_of_not_runs (h : m.table.WellFormed) (hno : m.table.runs (a.toNat + copied.size) = false)
    (hfirst : copied.size = 0 → ¬ m.FirstDenied a n) : FetchesRest a n copied m (.ok copied, m) where
  denied hdenied := absurd hdenied.2 (hfirst hdenied.1)
  copies _ := by rw [h.runnable_of_not_runs hno, ByteArray.append_empty]

/-- **One segment of code.** It is copied if it may be executed, else the fetch is over. -/
theorem turnDoes_fetchLoop (h : m.table.WellFormed) (hmore : copied.size < n) {x : Mapping} (hx : x ∈ m.table)
    (hlow : x.start ≤ a.toNat + copied.size) (hhigh : a.toNat + copied.size < x.stop) :
    Loop.TurnDoes (fun copied m => m.table.WellFormed ∧ copied.size ≤ n) (fun copied _ => n - copied.size)
      (FetchesRest a n) copied m
      (if x.segment.permissions.execute = true then
        let offset := a.toNat + copied.size - x.start
        let count := min (x.bytes.size - offset) (n - copied.size)
        (.ok (.yield (copied ++ x.bytes.extract offset (offset + count))), m)
      else if copied.size = 0 then (.error (.denied a 1 .execute), m)
      else (.ok (.done copied), m)) := by
  have hsize := (h.valid x hx).size_bytes
  have hruns := h.runs_of_mem hx ⟨hlow, hhigh⟩
  -- either the mapping can be run, and the turn takes what it has, or the walk ends before it
  split
  · next hexecute =>
    obtain ⟨count, hcount⟩ : ∃ count, count =
      min (x.bytes.size - (a.toNat + copied.size - x.start)) (n - copied.size) := ⟨_, rfl⟩
    have hcopied := size_append_extract copied
      (show a.toNat + copied.size - x.start + count ≤ x.bytes.size by omega)
    dsimp only
    rw [← hcount]
    refine .again ⟨h, by omega⟩ (by omega) fun r hr => ⟨fun hfirst => ?_, fun _ => ?_⟩
    · -- the first byte is in this segment
      rw [hfirst.1, Nat.add_zero, hfirst.2.2.2, hexecute] at hruns
      cases hruns
    · have hparts : count + (n - (copied.size + count)) = n - copied.size := by omega
      -- what is fetched from here on begins with what this mapping has
      have hinside : a.toNat + copied.size + count ≤ x.stop := by omega
      have hrunnable := h.runnable_add hx hlow hinside hexecute (n - (copied.size + count))
      rw [hparts] at hrunnable
      rw [hr.copies fun hfirst => by omega, hcopied, ← Nat.add_assoc, ByteArray.append_assoc, ← hrunnable]
  · next hexecute =>
    have hno := hruns.trans (Bool.eq_false_iff.mpr hexecute)
    -- a first byte that cannot be run is an error, a later one is the end
    split
    · next hzero =>
      obtain ⟨b, hb⟩ := h.exists_view?_of_mem hx ⟨hlow, hhigh⟩
      rw [hzero, Nat.add_zero] at hb hno
      have hmapped : m.view? a.toNat ≠ none := fun hnone => Option.some_ne_none _ (hb.symm.trans hnone)
      exact .fails ⟨fun _ => rfl, fun hfirst => absurd ⟨hzero, by omega, hmapped, hno⟩ hfirst⟩
    · next hpos =>
      exact .last (fetchesRest_of_not_runs h hno fun hzero => absurd hzero hpos) (Nat.sub_pos_of_lt hmore)

/-- **Fetching.** A turn copies bytes of one segment, or is the last, or finds that the first byte of all may not be
    executed. -/
theorem ends_fetchLoop (a : UInt64) (n : Nat) :
    (fetchLoop a n).Ends (fun copied m => m.table.WellFormed ∧ copied.size ≤ n) (fun copied _ => n - copied.size)
      (FetchesRest a n) where
  stops copied m h hstops := by
    have hfull := Nat.not_lt.mp (of_decide_eq_false hstops)
    refine ⟨fun hdenied => absurd hdenied.2.1 (by omega), fun _ => ?_⟩
    have hnothing : m.table.runnable (a.toNat + copied.size) 0 = ByteArray.empty := by
      cases m.table <;> rfl
    rw [Nat.sub_eq_zero_of_le hfull, hnothing, ByteArray.append_empty]
  turns copied m h hgoesOn := by
    obtain ⟨h, hle⟩ := h
    have hmore : copied.size < n := of_decide_eq_true hgoesOn
    rw [outcome_turn_fetchLoop]
    split
    · next hbeyond =>
      -- there are no segments behind the greatest address
      have hview := m.view?_eq_none_of_size_le hbeyond
      have hno : m.table.runs (a.toNat + copied.size) = false := congrArg (Option.any _) hview
      have hbound := a.toNat_lt_size
      exact .last (fetchesRest_of_not_runs h hno fun hzero => by omega) (Nat.sub_pos_of_lt hmore)
    · next hwithin =>
      have haddress : (a + UInt64.ofNat copied.size).toNat = a.toNat + copied.size :=
        toNat_add_ofNat (Nat.not_le.mp hwithin)
      cases hfind : m.table.find? (a + UInt64.ofNat copied.size) with
      | none =>
        have hview := h.view?_of_find?_eq_none hfind
        rw [haddress] at hview
        have hno : m.table.runs (a.toNat + copied.size) = false := congrArg (Option.any _) hview
        refine .last (fetchesRest_of_not_runs h hno fun hzero hfirst => hfirst.2.1 ?_) (Nat.sub_pos_of_lt hmore)
        rwa [hzero] at hview
      | some x =>
        obtain ⟨hx, hlow, hhigh, -⟩ := h.covers_of_find? hfind
        rw [haddress] at hlow hhigh
        exact turnDoes_fetchLoop h hmore hx hlow hhigh

/-- The walk of a fetch that may have one turn for each byte. The fetch fails as the walk does, or because no byte was
    copied. -/
theorem exists_within_fetchLoop (h : m.table.WellFormed) (a : UInt64) (n : Nat) :
    ∃ r : Except MemoryError ByteArray, outcome ((fetchLoop a n).within n ByteArray.empty) m = (r.map some, m) ∧
      m.fetch a n = r.bind fun bytes => if bytes.size = 0 ∧ n ≠ 0 then .error (.unmapped a 1) else .ok bytes := by
  obtain ⟨r, hr, hwithin⟩ := (ends_fetchLoop a n).exists_within (a := ByteArray.empty) ⟨h, Nat.zero_le n⟩
  rw [hwithin n (Nat.sub_le n _), fetch, isMapped_eq h]
  by_cases hfirst : m.FirstDenied a n
  · obtain rfl := hr.denied ⟨rfl, hfirst⟩
    have hnothing := h.runnable_of_not_runs hfirst.2.2 n
    have hmapped := Option.isSome_iff_ne_none.mpr hfirst.2.1
    have hn : n ≠ 0 := Nat.ne_of_gt hfirst.1
    refine ⟨.error (.denied a 1 .execute), rfl, ?_⟩
    simp [hnothing, hmapped, hn, Except.bind]
  · obtain rfl := hr.copies fun hdenied => hfirst hdenied.2
    refine ⟨.ok (m.table.runnable a.toNat n), by simp, ?_⟩
    by_cases hnone : m.table.runnable a.toNat n = ByteArray.empty ∧ ¬ n = 0
    · -- no byte was found, so the first one is not mapped
      have hno := h.not_runs_of_runnable_eq_empty hnone.2 hnone.1
      have hview : m.view? a.toNat = none := by
        by_contra hmapped
        exact hfirst ⟨Nat.pos_of_ne_zero hnone.2, hmapped, hno⟩
      simp [hnone, hview, Except.bind]
    · simp [hnone, Except.bind]

/-! ### Accesses -/

/-- Reads after a check, by walks that may have one turn for each byte. -/
def loadByTurns (enforce : Bool) (a : UInt64) (n : Nat) : MemoryM (Option ByteArray) := do
  let some _ ← (checkLoop .read enforce a n).within n ⟨a, n⟩ | return none
  (copyOutLoop a n).within n ByteArray.empty

/-- Writes after a check, by walks that may have one turn for each byte. -/
def storeByTurns (enforce : Bool) (a : UInt64) (data : ByteArray) : MemoryM (Option Unit) := do
  let some _ ← (checkLoop .write enforce a data.size).within data.size ⟨a, data.size⟩ | return none
  let some _ ← (copyInLoop a data).within data.size 0 | return none
  return some ()

/-- Fetches by a walk that may have one turn for each byte. -/
def fetchByTurns (a : UInt64) (n : Nat) : MemoryM (Option ByteArray) := do
  let some bytes ← (fetchLoop a n).within n ByteArray.empty | return none
  if bytes.size = 0 && n ≠ 0 then throw (.unmapped a 1)
  return some bytes

variable {enforce : Bool}

/-- A read by turns is completed, with the result of the read. -/
theorem completes_loadByTurns (h : m.table.WellFormed) (enforce : Bool) (a : UInt64) (n : Nat) :
    Completes (loadByTurns enforce a n) (ask fun m => m.load enforce a n) m := by
  show _ = ((m.load enforce a n).map some, m)
  obtain ⟨cursor, hcheck⟩ := outcome_within_checkLoop h .read enforce a n
  rw [loadByTurns, outcome_bind, hcheck, load]
  cases herror : m.accessError? .read enforce a n with
  | some e => rfl
  | none =>
    exact outcome_within_copyOutLoop h ((accessError?_eq_none_iff h).mp herror)

/-- A write by turns is completed, with the result of the write. -/
theorem completes_storeByTurns (h : m.table.WellFormed) (enforce : Bool) (a : UInt64) (data : ByteArray) :
    Completes (storeByTurns enforce a data) (store enforce a data) m := by
  obtain ⟨cursor, hcheck⟩ := outcome_within_checkLoop h .write enforce a data.size
  rw [Completes, storeByTurns, outcome_bind, hcheck]
  cases herror : m.accessError? .write enforce a data.size with
  | some e =>
    rw [outcome_store, herror]
    rfl
  | none =>
    obtain ⟨m', hcopied, hstored⟩ := outcome_within_copyInLoop h ((accessError?_eq_none_iff h).mp herror)
    rw [hstored]
    dsimp only
    rw [outcome_bind, hcopied]
    rfl

/-- A fetch by turns is completed, with the result of the fetch. -/
theorem completes_fetchByTurns (h : m.table.WellFormed) (a : UInt64) (n : Nat) :
    Completes (fetchByTurns a n) (ask fun m => m.fetch a n) m := by
  show _ = ((m.fetch a n).map some, m)
  obtain ⟨r, hwithin, hfetch⟩ := exists_within_fetchLoop h a n
  rw [fetchByTurns, outcome_bind, hwithin, hfetch]
  cases r with
  | error e => rfl
  | ok bytes => by_cases hnone : bytes.size = 0 <;> by_cases hn : n = 0 <;> simp [hnone, hn, Except.map, Except.bind]

end Memory

/-! ### A bus -/

/-- An address space with accesses by walks that may have one turn for each byte. After a walk that has more of them
    there is no address space to go on with. -/
structure Walked where
  memory? : Option Memory

namespace Walked

variable {α β : Type}

/-- Makes an access. -/
def access (act : MemoryM (Option α)) : BusM Walked α :=
  ExceptT.mk fun b =>
    match b.memory? with
    | none => (.error default, b)
    | some m =>
      match act.run.run m with
      | (.ok (some v), m') => (.ok v, ⟨some m'⟩)
      | (.ok none, _) => (.error default, ⟨none⟩)
      | (.error e, m') => (.error e, ⟨some m'⟩)

/-- Accesses that count the turns of their walks. -/
instance : Bus Walked where
  readWord w a := (fun bs => UInt64.ofNat (littleEndian bs)) <$> access (Memory.loadByTurns true a w.bytes)
  readXmm a := (fun bs => BitVec.ofNat 128 (littleEndian bs)) <$> access (Memory.loadByTurns true a 16)
  writeWord w a v := access (Memory.storeByTurns true a (packed (LittleEndian.bytes w.bytes v.toNat)))
  writeXmm a v := access (Memory.storeByTurns true a (packed (LittleEndian.bytes 16 v.toNat)))
  fetch a n := access (Memory.fetchByTurns a n)
  readBytes a n := access (Memory.loadByTurns true a n)
  writeBytes a data := access (Memory.storeByTurns true a data)

/-- All walks came to their end, and the address space is the one that is expected. -/
def Follows (b : Walked) (m : Memory) : Prop :=
  b.memory? = some m ∧ m.table.WellFormed

/-- An access whose walks come to their end. -/
theorem alike_access {act : MemoryM (Option α)} {x : MemoryM α}
    (hact : ∀ m : Memory, m.table.WellFormed → Completes act x m)
    (hkeeps : ∀ m : Memory, m.table.WellFormed → (outcome x m).2.table.WellFormed) :
    Alike Follows (access act) x := by
  rintro ⟨_⟩ m ⟨rfl, h⟩
  have hwf := hkeeps m h
  have hcompletes : outcome act m = ((outcome x m).1.map some, (outcome x m).2) := hact m h
  have houtcome : outcome (access act) ⟨some m⟩ = ((outcome x m).1, ⟨some (outcome x m).2⟩) := by
    rw [access, outcome_mk]
    dsimp only
    rw [run_run, hcompletes]
    rcases outcome x m with ⟨_ | _, _⟩ <;> rfl
  rw [houtcome]
  exact ⟨rfl, rfl, hwf⟩

/-- Reads by turns follow plain reads. -/
theorem alike_load (a : UInt64) (n : Nat) :
    Alike Follows (access (Memory.loadByTurns true a n)) (Memory.ask fun m => m.readBytes a n) :=
  alike_access (fun _ h => Memory.completes_loadByTurns h true a n) fun _ h => h

/-- Writes by turns follow plain writes. -/
theorem alike_store (a : UInt64) (data : ByteArray) :
    Alike Follows (access (Memory.storeByTurns true a data)) (Memory.writeBytes a data) :=
  alike_access (fun _ h => Memory.completes_storeByTurns h true a data)
    fun _ h => Memory.wellFormed_store h true a data

/-- Numbers are read as their bytes. -/
theorem alike_number (a : UInt64) (n : Nat) (f : ByteArray → α) :
    Alike Follows (f <$> access (Memory.loadByTurns true a n)) (Memory.ask fun m => f <$> m.readBytes a n) := by
  have hask : (Memory.ask fun m => f <$> m.readBytes a n) = f <$> Memory.ask fun m => m.readBytes a n := by
    refine funext fun m => ?_
    show (f <$> m.readBytes a n, m) = outcome (f <$> Memory.ask fun m => m.readBytes a n) m
    rw [outcome_mapResult]
    rfl
  rw [hask, map_eq_pure_bind, map_eq_pure_bind]
  exact (alike_load a n).bind fun bs => alike_pure (f bs)

/-- **Accesses by walks.** All of them come to their end, and they are those of the address space. -/
theorem congruence : Bus.Congruence Follows where
  readWord w a := alike_number a w.bytes _
  readXmm a := alike_number a 16 _
  writeWord _ a _ := alike_store a _
  writeXmm a _ := alike_store a _
  fetch a n := alike_access (fun _ h => Memory.completes_fetchByTurns h a n) fun _ h => h
  readBytes a n := alike_load a n
  writeBytes a data := alike_store a data

end Walked

end Amd64
