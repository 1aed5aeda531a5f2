import Amd64.Proofs.Memory.Pieces

namespace Amd64

/-!
# Operations that fail change nothing

An operation checks first and changes the address space then.  Where the second pass may fail as well, the
first one has to cover what it needs: writing looks every segment up again, and a new segment needs storage
that the host may refuse.

* `Table.WellFormed.insert_overwrite` — bytes replaced in the mapping that was found lie over its cells;
* `Memory.copyIn`                     — a write whose second pass looks each segment up;
* `Memory.copyIn_eq`                  — no lookup fails after the check, so it is the write along the table;
* `MemoryCall.carryOut`               — a call with such writes, on a host that may refuse storage;
* `failedCall_unchanged`              — whatever its error is, a call that fails changes nothing.
-/

namespace Table

namespace WellFormed

variable {t : Table} {m : Mapping}

/-- **One segment.** Bytes that are replaced in a mapping of a table lie over the cells of the table. -/
theorem insert_overwrite (h : t.WellFormed) (hm : m ∈ t) {data : ByteArray} {a pos n : Nat}
    (ha : m.start ≤ a) (hn : a + n ≤ m.stop) (hpos : pos + n ≤ data.size) :
    (Table.insert (m.overwrite (a - m.start) data pos n) t).WellFormed ∧
      (Table.insert (m.overwrite (a - m.start) data pos n) t).map Mapping.segment =
        t.map Mapping.segment ∧
      (Table.insert (m.overwrite (a - m.start) data pos n) t).view? =
        overlay t.view? a (((byteList data).drop pos).take n) := by
  have hlength : (((byteList data).drop pos).take n).length = n := by
    rw [List.length_take, List.length_drop, length_byteList]
    omega
  -- by induction on the table, down to the mapping that is overwritten
  induction t with
  | nil => cases hm
  | cons y t ih =>
    obtain ⟨hy, hyt, ht⟩ := wellFormed_cons.mp h
    obtain rfl | hmt := List.mem_cons.mp hm
    · -- it takes the place of the mapping that was found
      have hinsert : Table.insert (m.overwrite (a - m.start) data pos n) (m :: t) =
          m.overwrite (a - m.start) data pos n :: t := by
        simp [Table.insert, Mapping.overwrite]
      have hvalid : (m.overwrite (a - m.start) data pos n).Valid := hy.overwrite (by omega) hpos
      have hwf : WellFormed (m.overwrite (a - m.start) data pos n :: t) :=
        wellFormed_cons.mpr ⟨hvalid, hyt, ht⟩
      rw [hinsert]
      refine ⟨hwf, rfl, funext fun x => ?_⟩
      by_cases hx : x < m.stop
      · rw [hwf.view?_first hx, hy.cell?_overwrite data a pos n ha hn hpos,
          overlay_congr (h.view?_first hx).symm]
      · have hout : x < m.start ∨ m.stop ≤ x := Or.inr (Nat.not_lt.mp hx)
        rw [view?_cons_of_outside t (m := m.overwrite (a - m.start) data pos n) hout,
          overlay_of_outside (by omega), view?_cons_of_outside t hout]
    · -- it lies behind `y`, and so does what takes its place
      have hym : y.stop ≤ m.start := hyt m hmt
      have hystart := hy.start_lt_stop
      have hinsert : Table.insert (m.overwrite (a - m.start) data pos n) (y :: t) =
          y :: Table.insert (m.overwrite (a - m.start) data pos n) t := by
        have hnlt : ¬ m.segment.start < y.segment.start := fun hlt => by
          have hlt' : m.start < y.start := UInt64.lt_iff_toNat_lt.mp hlt
          omega
        have hne : ¬ m.segment.start = y.segment.start := fun heq => by
          have heq' : m.start = y.start := congrArg UInt64.toNat heq
          omega
        simp [Table.insert, Mapping.overwrite, hnlt, hne]
      obtain ⟨hwf, hsegments, hview⟩ := ih ht hmt
      have hbehind : ∀ z ∈ Table.insert (m.overwrite (a - m.start) data pos n) t,
          y.stop ≤ z.start := by
        intro z hz
        obtain rfl | hz := mem_insert hz
        · exact hym
        · exact hyt z hz
      rw [hinsert]
      refine ⟨wellFormed_cons.mpr ⟨hy, hbehind, hwf⟩, by rw [List.map_cons, List.map_cons, hsegments],
        funext fun x => ?_⟩
      by_cases hx : x < y.stop
      · rw [overlay_of_outside (by omega), h.view?_first hx,
          (wellFormed_cons.mpr ⟨hy, hbehind, hwf⟩).view?_first hx]
      · have hout : x < y.start ∨ y.stop ≤ x := Or.inr (Nat.not_lt.mp hx)
        rw [view?_cons_of_outside _ hout, hview, overlay_congr (view?_cons_of_outside t hout).symm]

end WellFormed

end Table

/-! ### Writes segment by segment -/

namespace Memory

variable {m : Memory}

/-- Replaces bytes by those of `data` from the position `done` on, in at most `n` segments. Each segment is
looked up anew, which fails where there is none. -/
def copyFrom (a : UInt64) (data : ByteArray) : Nat → Nat → MemoryM Unit
  | 0, _ => return ()
  | n + 1, done => do
    if data.size ≤ done then return ()
    let address := a + UInt64.ofNat done
    let some x := (← get).table.find? address | throw (.unmapped a (UInt64.ofNat data.size))
    let offset := address.toNat - x.start
    let count := min (x.bytes.size - offset) (data.size - done)
    modifyTable (Table.insert (x.overwrite offset data done count))
    copyFrom a data n (done + count)

/-- Replaces bytes after a check, segment by segment. Every segment takes one of the bytes at least. -/
def copyIn (enforce : Bool) (a : UInt64) (data : ByteArray) : MemoryM Unit := do
  match (← get).accessError? .write enforce a data.size with
  | none => copyFrom a data data.size 0
  | some e => throw e

variable {ok : Permissions → Bool} {enforce : Bool} {a : UInt64} {data : ByteArray}

/-- **One lookup.** Where the bytes that are left are mapped, a segment is found, which takes at least one of
    them. -/
theorem exists_copyFrom_succ {done : Nat} (h : m.table.WellFormed)
    (hpermits : ∀ x, a.toNat ≤ x → x < a.toNat + data.size → m.Permits ok x)
    (hdone : done < data.size) (n : Nat) :
    ∃ count m', 0 < count ∧
      outcome (copyFrom a data (n + 1) done) m = outcome (copyFrom a data n (done + count)) m' ∧
      m'.table.WellFormed ∧ m'.window = m.window ∧ m'.segments = m.segments ∧
      m'.view? = overlay m.view? (a.toNat + done) (((byteList data).drop done).take count) := by
  have hsum : done + (data.size - done) = data.size := by omega
  have haddress : (a + UInt64.ofNat done).toNat = a.toNat + done :=
    toNat_add_of_permits (Nat.sub_ne_zero_of_lt hdone) (by rwa [hsum])
  -- the next byte may be written, so there is a segment that holds it
  obtain ⟨c, hc, -⟩ := hpermits (a.toNat + done) (by omega) (by omega)
  obtain ⟨x, hfind⟩ := h.exists_find?_of_view? (haddress.symm ▸ hc)
  obtain ⟨hx, hlow, hhigh, hsize⟩ := h.covers_of_find? hfind
  rw [haddress] at hlow hhigh
  obtain ⟨count, hcount⟩ : ∃ count, count =
      min (x.bytes.size - (a.toNat + done - x.start)) (data.size - done) := ⟨_, rfl⟩
  have hstop : a.toNat + done + count ≤ x.stop := by omega
  have htaken : done + count ≤ data.size := by omega
  obtain ⟨hwf, hsegments, hview⟩ := h.insert_overwrite hx hlow hstop htaken
  refine ⟨count, ⟨m.window, Table.insert (x.overwrite (a.toNat + done - x.start) data done count)
    m.table⟩, by omega, ?_, hwf, rfl, hsegments, hview⟩
  rw [hcount]
  simp [copyFrom, Nat.not_le.mpr hdone, outcome_bind, hfind, haddress]

/-- **Second passes.** Where all bytes are mapped, no lookup fails and the bytes lie over the cells. -/
theorem exists_copyFrom {n done : Nat} (h : m.table.WellFormed)
    (hpermits : ∀ x, a.toNat ≤ x → x < a.toNat + data.size → m.Permits ok x)
    (hn : data.size ≤ done + n) :
    ∃ m', outcome (copyFrom a data n done) m = (.ok (), m') ∧ m'.table.WellFormed ∧
      m'.window = m.window ∧ m'.segments = m.segments ∧
      m'.view? = overlay m.view? (a.toNat + done) ((byteList data).drop done) := by
  induction n generalizing m done with
  | zero =>
    have hnothing : (byteList data).drop done = [] := List.drop_eq_nil_of_le hn
    exact ⟨m, rfl, h, rfl, rfl, by rw [hnothing, overlay_nil]⟩
  | succ n ih =>
    by_cases hdone : data.size ≤ done
    · have hnothing : (byteList data).drop done = [] := List.drop_eq_nil_of_le hdone
      refine ⟨m, ?_, h, rfl, rfl, by rw [hnothing, overlay_nil]⟩
      simp [copyFrom, hdone]
    · obtain ⟨count, m₁, hpos, hstep, hwf₁, hwindow₁, hsegments₁, hview₁⟩ :=
        exists_copyFrom_succ h hpermits (Nat.not_le.mp hdone) n
      have hpermits₁ : ∀ y, a.toNat ≤ y → y < a.toNat + data.size → m₁.Permits ok y :=
        fun y hay hy => (permits_of_overlay hview₁ ok y).mpr (hpermits y hay hy)
      have hrest : data.size ≤ done + count + n := by omega
      obtain ⟨m', hlater, hwf, hwindow, hsegments, hview⟩ := ih hwf₁ hpermits₁ hrest
      refine ⟨m', hstep.trans hlater, hwf, hwindow.trans hwindow₁, hsegments.trans hsegments₁, ?_⟩
      -- what the segment took lies in front of what the others took
      have hparts := overlay_take_drop m.view? (a.toNat + done) count ((byteList data).drop done)
      rw [hview, hview₁, ← hparts, List.drop_drop, Nat.add_assoc]

/-- **Writes segment by segment.** They end like the writes along the table. -/
theorem copyIn_eq (h : m.table.WellFormed) :
    outcome (copyIn enforce a data) m = outcome (store enforce a data) m := by
  have hcopy : outcome (copyIn enforce a data) m =
      match m.accessError? .write enforce a data.size with
      | none => outcome (copyFrom a data data.size 0) m
      | some e => (.error e, m) := by
    unfold copyIn
    cases herror : m.accessError? .write enforce a data.size <;> simp [outcome_bind, herror]
  rw [hcopy]
  cases herror : m.accessError? .write enforce a data.size with
  | some e => rw [outcome_store, herror]
  | none =>
    have hpermits := (accessError?_eq_none_iff h).mp herror
    have hall : data.size ≤ 0 + data.size := by omega
    obtain ⟨m', hdone, hwf, hwindow, hsegments, hview⟩ := exists_copyFrom h hpermits hall
    rw [hdone]
    exact ((store_eq_ok_iff h).mpr ⟨hpermits, hwf, hwindow, hsegments, hview⟩).symm

end Memory

/-! ### Calls on a host -/

/-- The operation on a host that may refuse storage, with writes segment by segment. -/
def MemoryCall.carryOut (host : Host) : MemoryCall → MemoryM Unit
  | allocate size name permissions => discard (Memory.allocateOn host size name permissions)
  | map segment data => Memory.mapOn host segment data
  | unmap a => discard (Memory.unmap a)
  | protect a len permissions => Memory.protect a len permissions
  | writeBytes a data => Memory.copyIn true a data
  | writeWord w a v => Memory.copyIn true a (packed (LittleEndian.bytes w.bytes v.toNat))
  | writeXmm a v => Memory.copyIn true a (packed (LittleEndian.bytes 16 v.toNat))
  | poke a data => Memory.copyIn false a data

/-- A host with more storage than can be asked for has what any other has. -/
theorem Host.affords_ample {host : Host} {n : UInt64} (h : host.affords n = true) :
    ample.affords n = true := by
  obtain ⟨hlimit, -⟩ := Bool.and_eq_true_iff.mp h
  exact Bool.and_eq_true_iff.mpr ⟨hlimit, rfl⟩

namespace Memory

/-- The operation leaves the address space as it was if it fails. -/
def Reverts {α : Type} (x : MemoryM α) : Prop :=
  ∀ m e, (outcome x m).1 = .error e → (outcome x m).2 = m

/-- The value does not count. -/
theorem Reverts.discard {α : Type} {x : MemoryM α} (hx : Reverts x) : Reverts (discard x) := by
  intro m e he
  have hm := hx m
  rw [outcome_discard] at he ⊢
  generalize outcome x m = p at hm he ⊢
  obtain ⟨e' | v, m'⟩ := p
  · exact hm e' rfl
  · cases he

variable (host : Host)

/-- An allocation that fails leaves the memory. -/
theorem reverts_allocateOn (size : UInt64) (name : String) (permissions : Permissions) :
    Reverts (allocateOn host size name permissions) := by
  intro m e he
  rw [outcome_allocateOn] at he ⊢
  split
  · rfl
  · next hsize =>
    rw [if_neg hsize] at he
    split
    · rfl
    · next len hlen =>
      rw [hlen] at he
      split
      · rfl
      · next start hfit =>
        simp only [hfit] at he ⊢
        split
        · next hafford =>
          rw [if_pos hafford] at he
          cases he
        · rfl

/-- A mapping that fails leaves the memory. -/
theorem reverts_mapOn (segment : Segment) (data : ByteArray) : Reverts (mapOn host segment data) := by
  intro m e he
  rw [outcome_mapOn] at he ⊢
  split
  · rfl
  · next hempty =>
    split
    · rfl
    · next hlong =>
      split
      · rfl
      · next hafford =>
        split
        · rfl
        · next hover =>
          rw [if_neg hempty, if_neg hlong, if_neg hafford, if_neg hover] at he
          cases he

/-- An unmapping that fails leaves the memory. -/
theorem reverts_unmap (a : UInt64) : Reverts (unmap a) := by
  intro m e he
  rw [outcome_unmap] at he ⊢
  split
  · rfl
  · next x hfind =>
    rw [hfind] at he
    split
    · rfl
    · next hstart =>
      simp only [hstart, if_false] at he
      cases he

/-- The check covers all pages of the range, so that permissions are set only if it succeeds. -/
theorem reverts_protect (a len : UInt64) (permissions : Permissions) :
    Reverts (protect a len permissions) := by
  intro m e he
  rw [outcome_protect] at he ⊢
  split
  · rfl
  · next hlen =>
    rw [if_neg hlen] at he
    split
    · rfl
    · next stop hstop =>
      simp only [hstop] at he ⊢
      split
      · rfl
      · next hobstacle =>
        rw [if_neg hobstacle] at he
        cases he

/-- A write that fails leaves the memory. -/
theorem reverts_store (enforce : Bool) (a : UInt64) (data : ByteArray) :
    Reverts (store enforce a data) := by
  intro m e he
  rw [outcome_store] at he ⊢
  split
  · next hnone =>
    rw [hnone] at he
    cases he
  · rfl

/-- Unless the host refuses storage, an address space gets the segment as it would on any host. -/
theorem allocateOn_cases (size : UInt64) (name : String) (permissions : Permissions) (m : Memory) :
    outcome (allocateOn host size name permissions) m = outcome (allocate size name permissions) m ∨
      ∃ e, outcome (allocateOn host size name permissions) m = (.error e, m) := by
  rw [allocate, outcome_allocateOn, outcome_allocateOn]
  split
  · exact Or.inl rfl
  · split
    · exact Or.inl rfl
    · next len _ =>
      split
      · exact Or.inl rfl
      · by_cases hafford : host.affords len = true
        · exact Or.inl (by simp only [hafford, Host.affords_ample hafford])
        · exact Or.inr ⟨_, if_neg hafford⟩

/-- A host that is short of storage can only make a mapping fail. -/
theorem mapOn_cases (segment : Segment) (data : ByteArray) (m : Memory) :
    outcome (mapOn host segment data) m = outcome (map segment data) m ∨
      ∃ e, outcome (mapOn host segment data) m = (.error e, m) := by
  rw [map, outcome_mapOn, outcome_mapOn]
  split
  · exact Or.inl rfl
  · split
    · exact Or.inl rfl
    · by_cases hafford : host.affords (segment.stop - segment.start) = true
      · exact Or.inl (by simp only [hafford, Host.affords_ample hafford])
      · exact Or.inr ⟨_, by rw [if_pos (Bool.eq_false_iff.mpr hafford)]⟩

end Memory

namespace MemoryCall

variable {m : Memory}

/-- Calls that fail leave the address space as it was. -/
theorem reverts_act (c : MemoryCall) : Memory.Reverts c.act := by
  cases c with
  | allocate size name permissions => exact (Memory.reverts_allocateOn .ample size name permissions).discard
  | map segment data => exact Memory.reverts_mapOn .ample segment data
  | unmap a => exact (Memory.reverts_unmap a).discard
  | protect a len permissions => exact Memory.reverts_protect a len permissions
  | writeBytes a data => exact Memory.reverts_store true a data
  | writeWord w a v => exact Memory.reverts_store true a _
  | writeXmm a v => exact Memory.reverts_store true a _
  | poke a data => exact Memory.reverts_store false a data

/-- **Calls on a host.** The host refuses storage, which changes nothing, or the call ends as on any other. -/
theorem carryOut_cases (h : m.table.WellFormed) (host : Host) (c : MemoryCall) :
    outcome (c.carryOut host) m = outcome c.act m ∨
      ∃ e, outcome (c.carryOut host) m = (.error e, m) := by
  cases c with
  | allocate size name permissions =>
    simp only [carryOut, act, outcome_discard]
    obtain hsame | ⟨e, hrefused⟩ := Memory.allocateOn_cases host size name permissions m
    · exact Or.inl (by rw [hsame])
    · exact Or.inr ⟨e, by rw [hrefused]; rfl⟩
  | map segment data => exact Memory.mapOn_cases host segment data m
  | unmap a => exact Or.inl rfl
  | protect a len permissions => exact Or.inl rfl
  | writeBytes a data => exact Or.inl (Memory.copyIn_eq h)
  | writeWord w a v => exact Or.inl (Memory.copyIn_eq h)
  | writeXmm a v => exact Or.inl (Memory.copyIn_eq h)
  | poke a data => exact Or.inl (Memory.copyIn_eq h)

/-- Where storage is no concern, a call does what it does on an address space. -/
theorem outcome_carryOut_ample (h : m.table.WellFormed) (c : MemoryCall) :
    outcome (c.carryOut .ample) m = outcome c.act m := by
  cases c with
  | allocate | map | unmap | protect => rfl
  | writeBytes | writeWord | writeXmm | poke => exact Memory.copyIn_eq h

end MemoryCall

/-- **Failed calls.** Whatever the host refuses and whatever the error is: a call that fails leaves the
    address space as it was, with its segments and their contents.  A call that succeeds does what it does on
    a host with ample storage, so the address spaces that calls lead to on any host are reachable.  Writes that
    look each segment up end like writes along the table. -/
theorem failedCall_unchanged :
    (∀ (host : Host) (c : MemoryCall) (m : Memory), m.Reachable →
      (∀ e, (outcome (c.carryOut host) m).1 = .error e → (outcome (c.carryOut host) m).2 = m) ∧
      (∀ u, (outcome (c.carryOut host) m).1 = .ok u →
        outcome (c.carryOut host) m = outcome c.act m) ∧
      (outcome (c.carryOut host) m).2.Reachable) ∧
    ∀ (c : MemoryCall) (m : Memory), m.Reachable →
      outcome (c.carryOut .ample) m = outcome c.act m := by
  refine ⟨fun host c m h => ?_, fun c m h => ?_⟩
  · obtain hsame | ⟨e, hrefused⟩ := c.carryOut_cases h.wellFormed host
    · rw [hsame]
      exact ⟨c.reverts_act m, fun _ _ => rfl, h.afterCalls [c]⟩
    · rw [hrefused]
      refine ⟨fun _ _ => rfl, fun u hok => ?_, h⟩
      cases hok
  · exact c.outcome_carryOut_ample h.wellFormed

/-- A host without storage. -/
def Host.full : Host := ⟨fun _ => false⟩

/-- Two segments side by side stay as they are where storage for a third one is refused, where the upper
    one may not be written, and where pages to protect are not mapped. -/
theorem failedCall_unchanged_adjacent :
    (outcome (MemoryCall.carryOut .full (.allocate 1 "new" .readWrite)) Memory.adjacent).1 =
        .error (.noSpace 0x1000) ∧
      (outcome (MemoryCall.carryOut .full (.allocate 1 "new" .readWrite)) Memory.adjacent).2 =
        Memory.adjacent ∧
      (outcome (MemoryCall.carryOut .ample (.writeBytes 0x1001 (packed [8, 9]))) Memory.adjacent).1 =
        .error (.denied 0x1001 2 .write) ∧
      (outcome (MemoryCall.carryOut .ample (.writeBytes 0x1001 (packed [8, 9]))) Memory.adjacent).2 =
        Memory.adjacent ∧
      (outcome (MemoryCall.carryOut .ample (.protect 0x1000 8 .readWrite)) Memory.adjacent).1 =
        .error (.denied 0x1000 8 .protect) ∧
      (outcome (MemoryCall.carryOut .ample (.protect 0x1000 8 .readWrite)) Memory.adjacent).2 =
        Memory.adjacent := by
  obtain ⟨hfailed, -⟩ := failedCall_unchanged
  have h : Memory.adjacent.Reachable := ⟨_, _, rfl⟩
  have hallocate : (outcome (MemoryCall.carryOut .full (.allocate 1 "new" .readWrite))
      Memory.adjacent).1 = .error (.noSpace 0x1000) := by decide +kernel
  have hwrite : (outcome (MemoryCall.carryOut .ample (.writeBytes 0x1001 (packed [8, 9])))
      Memory.adjacent).1 = .error (.denied 0x1001 2 .write) := by decide +kernel
  have hprotect : (outcome (MemoryCall.carryOut .ample (.protect 0x1000 8 .readWrite))
      Memory.adjacent).1 = .error (.denied 0x1000 8 .protect) := by decide +kernel
  exact ⟨hallocate, (hfailed _ _ _ h).1 _ hallocate, hwrite, (hfailed _ _ _ h).1 _ hwrite, hprotect,
    (hfailed _ _ _ h).1 _ hprotect⟩

end Amd64
