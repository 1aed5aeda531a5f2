import Amd64.Proofs.Memory.Protect
import Mathlib.Order.Bounds.Defs

namespace Amd64

/-!
# The lowest free place

The search for a free place moves a cursor from the base of the window to the end of each segment in its way.
Since segments are in address order it passes no place that is free.

* `Table.Free`              — no mapping meets a range of addresses;
* `Table.exists_firstFit?`  — a search ends at or below every free place;
* `WellFormed.firstFit?_isLeast`, `WellFormed.firstFit?_eq_none_iff` — so it finds the lowest one, if there is
  any;
* `WellFormed.view?_insert`  — the cells of a table with one more mapping;
* `Memory.FreePlace`, `Memory.Allocates` — places in the window, and what an allocation does, said by them;
* `Memory.allocate_leastPlace` — allocations do this.
-/

namespace Table

variable {t : Table} {m n : Mapping} {size limit cursor : Nat}

/-- No mapping meets the `size` addresses from `a` on. -/
def Free (t : Table) (a size : Nat) : Prop :=
  ∀ m ∈ t, m.stop ≤ a ∨ a + size ≤ m.start

/-! ### The search -/

/-- **Nothing is passed.** Where a place is free the search ends, there or further down. -/
theorem exists_firstFit? {a : Nat} (hcursor : cursor ≤ a) (hlimit : a + size ≤ limit)
    (hfree : t.Free a size) : ∃ s, firstFit? size limit cursor t = some s ∧ s ≤ a := by
  -- induction along the search; the cursor stays at or below `a`
  fun_induction firstFit? size limit cursor t with
  | case1 cursor | case3 cursor | case6 cursor => exact ⟨cursor, rfl, hcursor⟩
  | case2 cursor hfull => omega
  | case4 cursor m t _ hfull => omega
  | case5 cursor m t _ _ ih =>
    obtain ⟨_, htail⟩ := List.forall_mem_cons.mp hfree
    exact ih hcursor htail
  | case7 cursor m t _ _ hgap ih =>
    obtain ⟨hm, htail⟩ := List.forall_mem_cons.mp hfree
    -- there is no room between the cursor and `m`, so `a` lies behind `m`
    have hbehind : m.stop ≤ a := by omega
    exact ih hbehind htail

/-- **First fit.** The place that is found is the lowest free one. -/
theorem WellFormed.firstFit?_isLeast (h : t.WellFormed) {s : Nat}
    (hs : firstFit? size limit cursor t = some s) :
    IsLeast {a | cursor ≤ a ∧ a + size ≤ limit ∧ t.Free a size} s := by
  refine ⟨h.firstFit?_free hs, ?_⟩
  rintro a ⟨hcursor, hlimit, hfree⟩
  obtain ⟨s', hs', hle⟩ := exists_firstFit? hcursor hlimit hfree
  rw [hs, Option.some_inj] at hs'
  rwa [hs']

/-- The search fails only if there is no free place. -/
theorem WellFormed.firstFit?_eq_none_iff (h : t.WellFormed) :
    firstFit? size limit cursor t = none ↔
      ∀ a, ¬ (cursor ≤ a ∧ a + size ≤ limit ∧ t.Free a size) := by
  constructor
  · rintro hnone a ⟨hcursor, hlimit, hfree⟩
    obtain ⟨s, hs, -⟩ := exists_firstFit? hcursor hlimit hfree
    rw [hnone] at hs
    cases hs
  · intro hno
    rw [Option.eq_none_iff_forall_ne_some]
    exact fun s hs => hno s (h.firstFit?_free hs)

/-! ### One more mapping -/

namespace WellFormed

/-- **Place.** A mapping that meets no other is put between two of them, and replaces none. -/
theorem exists_insert (h : t.WellFormed) (hm : m.Valid)
    (hfree : ∀ n ∈ t, n.stop ≤ m.start ∨ m.stop ≤ n.start) :
    ∃ lower upper, t = lower ++ upper ∧ Table.insert m t = lower ++ m :: upper := by
  induction t with
  | nil => exact ⟨[], [], rfl, rfl⟩
  | cons y t ih =>
    obtain ⟨hyvalid, -, ht⟩ := wellFormed_cons.mp h
    obtain ⟨hy, hrest⟩ := List.forall_mem_cons.mp hfree
    simp only [Table.insert]
    split
    · exact ⟨[], y :: t, rfl, rfl⟩
    · split
      · next heq =>
        -- a mapping with the same start would meet the new one
        have hstart : m.start = y.start := congrArg UInt64.toNat heq
        have hmpos := hm.start_lt_stop
        have hypos := hyvalid.start_lt_stop
        omega
      · obtain ⟨lower, upper, htable, hinsert⟩ := ih ht hrest
        exact ⟨y :: lower, upper, by rw [htable]; rfl, by rw [hinsert]; rfl⟩

/-- It joins the mappings that are there. -/
theorem mem_insert_iff (h : t.WellFormed) (hm : m.Valid)
    (hfree : ∀ n ∈ t, n.stop ≤ m.start ∨ m.stop ≤ n.start) :
    n ∈ Table.insert m t ↔ n = m ∨ n ∈ t := by
  obtain ⟨lower, upper, htable, hinsert⟩ := h.exists_insert hm hfree
  rw [hinsert, htable, List.mem_append, List.mem_append, List.mem_cons]
  exact or_left_comm

/-- **Cells.** At its addresses there are its cells, at all others those that were there. -/
theorem view?_insert (h : t.WellFormed) (hm : m.Valid)
    (hfree : ∀ n ∈ t, n.stop ≤ m.start ∨ m.stop ≤ n.start) (x : Nat) :
    (Table.insert m t).view? x = if m.start ≤ x ∧ x < m.stop then m.cell? x else t.view? x := by
  have hwf := h.insert hm hfree
  split
  · next hx => exact hwf.view?_of_covers ((h.mem_insert_iff hm hfree).mpr (Or.inl rfl)) hx
  · next hx =>
    obtain ⟨lower, upper, htable, hinsert⟩ := h.exists_insert hm hfree
    have hnone : m.cell? x = none := if_neg hx
    rw [hinsert, htable, view?, view?, List.findSome?_append, List.findSome?_append,
      List.findSome?_cons, hnone]

end WellFormed

end Table

/-! ### Allocations -/

/-- A string of zeros holds nothing else. -/
theorem byteList_zeros (n : Nat) : byteList (zeros n) = List.replicate n 0 := by
  -- induction along the doubling
  induction n using Nat.strongRecOn with
  | ind n ih =>
    rw [zeros]
    split
    · next hzero => simp [hzero, byteList]
    · next hpos =>
      have hhalf := ih (n / 2) (by omega)
      have htwice : byteList (zeros (n / 2) ++ zeros (n / 2)) = List.replicate (n / 2 + n / 2) 0 := by
        rw [byteList_append, hhalf, List.replicate_append_replicate]
      split
      · next heven => rw [htwice, show n / 2 + n / 2 = n by omega]
      · next hodd =>
        have hpush : ∀ bs : ByteArray, byteList (bs.push 0) = byteList bs ++ [0] :=
          fun bs => Array.toList_push
        rw [hpush, htwice, ← List.replicate_succ', show n / 2 + n / 2 + 1 = n by omega]

namespace Memory

/-- Whether `len` bytes from `a` on lie in the window and meet no segment. -/
structure FreePlace (m : Memory) (len a : Nat) : Prop where
  base_le : pagesStart m.window.base ≤ a
  le_limit : a + len ≤ m.window.limit.toNat
  free : ∀ s ∈ m.segments, s.stop.toNat ≤ a ∨ a + len ≤ s.start.toNat

/-- What an allocation of `len` bytes does where the host has storage for them. -/
structure Allocates (m : Memory) (len : UInt64) (name : String) (p : Permissions)
    (result : Except MemoryError Segment × Memory) : Prop where
  /-- It succeeds if and only if there is a free place. -/
  isOk_iff : (∃ s, result.1 = .ok s) ↔ ∃ a, m.FreePlace len.toNat a
  /-- It takes the lowest one. -/
  start : ∀ s, result.1 = .ok s → IsLeast {a | m.FreePlace len.toNat a} s.start.toNat
  stop : ∀ s, result.1 = .ok s → s.stop.toNat = s.start.toNat + len.toNat
  /-- The segment is as it was asked for. -/
  attributes : ∀ s, result.1 = .ok s → s.permissions = p ∧ s.name = name ∧ s.offset = 0
  /-- It is filled with zeros, and the cells of other segments stay. -/
  cells : ∀ s, result.1 = .ok s → ∀ x, result.2.view? x =
    if s.start.toNat ≤ x ∧ x < s.stop.toNat then some (0, p) else m.view? x
  /-- It joins the other segments. -/
  segments : ∀ s, result.1 = .ok s → ∀ r, r ∈ result.2.segments ↔ r = s ∨ r ∈ m.segments
  window : result.2.window = m.window
  /-- Without a free place there is no room, and nothing changes. -/
  full : (∀ a, ¬ m.FreePlace len.toNat a) → result = (.error (.noSpace len), m)

variable {m : Memory}

/-- Places in the window are the places that are searched. -/
theorem freePlace_iff {len a : Nat} :
    m.FreePlace len a ↔
      pagesStart m.window.base ≤ a ∧ a + len ≤ m.window.limit.toNat ∧ m.table.Free a len := by
  have hfree : (∀ s ∈ m.segments, s.stop.toNat ≤ a ∨ a + len ≤ s.start.toNat) ↔ m.table.Free a len :=
    List.forall_mem_map
  rw [← hfree]
  apply Iff.intro
  · intro hplace
    exact ⟨hplace.base_le, hplace.le_limit, hplace.free⟩
  · rintro ⟨hbase, hlimit, hfree⟩
    exact ⟨hbase, hlimit, hfree⟩

/-- The cells of a segment that is filled with zeros. -/
theorem cell?_zeros {s : Segment} {n x : Nat} (hn : n = s.stop.toNat - s.start.toNat)
    (hx : s.start.toNat ≤ x ∧ x < s.stop.toNat) :
    (⟨s, zeros n⟩ : Mapping).cell? x = some (0, s.permissions) := by
  have hlt : x - s.start.toNat < n := by omega
  rw [Mapping.cell?_eq_map hx, byteList_zeros]
  show (List.replicate n (0 : UInt8))[x - s.start.toNat]?.map _ = _
  rw [List.getElem?_replicate_of_lt hlt, Option.map_some]

variable {size len : UInt64} (name : String) (p : Permissions)

/-- The places that are searched, as a set. -/
theorem setOf_freePlace (m : Memory) (n : Nat) :
    {a | m.FreePlace n a} = {a | (Page.floor m.window.base).toNat ≤ a ∧
      a + n ≤ m.window.limit.toNat ∧ m.table.Free a n} := by
  ext a
  rw [Page.toNat_floor]
  exact freePlace_iff

/-- What an allocation does where a place was found. -/
theorem allocates_of_found (h : m.table.WellFormed) (hsize : size ≠ 0)
    (hlen : Page.ceil? size = some len) {start : Nat}
    (hfit : m.table.firstFit? len.toNat m.window.limit.toNat (Page.floor m.window.base).toNat =
      some start) :
    let s : Segment := ⟨UInt64.ofNat start, UInt64.ofNat start + len, p, 0, name⟩
    m.Allocates len name p (.ok s, ⟨m.window, m.table.insert ⟨s, zeros len.toNat⟩⟩) := by
  intro s
  -- the first place that is found is the least of all that are free
  have hleast := h.firstFit?_isLeast hfit
  rw [← setOf_freePlace] at hleast
  have hplace : m.FreePlace len.toNat start := hleast.1
  obtain ⟨hstart, hstop, hvalid⟩ :=
    valid_allocated p name hsize hlen hplace.le_limit (UInt64.toNat_lt_size _)
  have hfree : ∀ n ∈ m.table, n.stop ≤ (⟨s, zeros len.toNat⟩ : Mapping).start ∨
      (⟨s, zeros len.toNat⟩ : Mapping).stop ≤ n.start := by
    rw [hstart, hstop]
    exact (freePlace_iff.mp hplace).2.2
  -- from here on the borders are numbers, without the mapping around them
  replace hstart : s.start.toNat = start := hstart
  replace hstop : s.stop.toNat = start + len.toNat := hstop
  have hlength : len.toNat = s.stop.toNat - s.start.toNat := by omega
  constructor
  case isOk_iff => exact ⟨fun _ => ⟨start, hplace⟩, fun _ => ⟨s, rfl⟩⟩
  case start =>
    rintro _ ⟨⟩
    rwa [hstart]
  case stop =>
    rintro _ ⟨⟩
    rw [hstop, hstart]
  case attributes =>
    rintro _ ⟨⟩
    exact ⟨rfl, rfl, rfl⟩
  case cells =>
    rintro _ ⟨⟩ x
    show (m.table.insert ⟨s, zeros len.toNat⟩).view? x = _
    rw [h.view?_insert hvalid hfree]
    split
    · next hx => exact (cell?_zeros hlength hx).trans (if_pos hx).symm
    · next hx => exact (if_neg hx).symm
  case segments =>
    rintro _ ⟨⟩ r
    obtain ⟨lower, upper, htable, hinsert⟩ := h.exists_insert hvalid hfree
    show r ∈ (m.table.insert ⟨s, zeros len.toNat⟩).map Mapping.segment ↔
      r = s ∨ r ∈ m.table.map Mapping.segment
    rw [hinsert, htable, List.map_append, List.map_append, List.map_cons, List.mem_append,
      List.mem_append, List.mem_cons]
    exact or_left_comm
  case window => rfl
  case full => exact fun hnone => absurd hplace (hnone start)

/-- What an allocation does where no place was found. -/
theorem allocates_of_full (h : m.table.WellFormed)
    (hfit : m.table.firstFit? len.toNat m.window.limit.toNat (Page.floor m.window.base).toNat =
      none) :
    m.Allocates len name p (.error (.noSpace len), m) := by
  have hnone : ∀ a, ¬ m.FreePlace len.toNat a := fun a ha => by
    have hin : a ∈ {a | m.FreePlace len.toNat a} := ha
    rw [setOf_freePlace] at hin
    exact h.firstFit?_eq_none_iff.mp hfit a hin
  constructor
  case isOk_iff => exact ⟨nofun, fun ⟨a, ha⟩ => absurd ha (hnone a)⟩
  case start | stop | attributes | cells | segments => exact nofun
  case window => rfl
  case full => exact fun _ => rfl

/-- **Allocations.** In a reachable address space, whatever its window is: where the host has storage for the
    pages that hold `size` bytes, an allocation succeeds if and only if they fit somewhere in the window
    without meeting a segment.  It then takes the lowest such place for a segment of zeros, and changes no
    other segment.  If they fit nowhere nothing changes. -/
theorem allocate_leastPlace (h : m.Reachable) (host : Host) (hsize : size ≠ 0)
    (hlen : Page.ceil? size = some len) (hstorage : host.affords len = true) :
    m.Allocates len name p (outcome (allocateOn host size name p) m) := by
  rw [outcome_allocateOn, if_neg hsize, hlen]
  dsimp only
  cases hfit : m.table.firstFit? len.toNat m.window.limit.toNat (Page.floor m.window.base).toNat with
  | none => exact allocates_of_full name p h.wellFormed hfit
  | some start =>
    dsimp only
    rw [if_pos hstorage]
    exact allocates_of_found name p h.wellFormed hsize hlen hfit

/-- A window whose base lies in a segment, with another segment further up and a third past its limit. -/
def crowded : Memory :=
  (empty ⟨0x10008, 0x13000⟩).afterCalls
    [.map ⟨0xfff8, 0x10010, .readExecute, 0, "low"⟩ ByteArray.empty,
      .map ⟨0x11000, 0x11008, .readWrite, 0, "middle"⟩ ByteArray.empty,
      .map ⟨0x12ff0, 0x13010, .readWrite, 0, "high"⟩ ByteArray.empty]

/-- The gap in front of the second segment is sixteen bytes too short for a page, the one behind it is not.  Two
    pages fit nowhere. -/
theorem allocate_leastPlace_crowded :
    crowded.Reachable ∧
      (outcome (allocateOn .ample 1 "new" .readWrite) crowded).1 =
        .ok ⟨0x11008, 0x12008, .readWrite, 0, "new"⟩ ∧
      IsLeast {a | crowded.FreePlace 0x1000 a} 0x11008 ∧
      (outcome (allocateOn .ample 1 "new" .readWrite) crowded).2.view? 0x11ffe =
        some (0, .readWrite) ∧
      outcome (allocateOn .ample 0x1001 "new" .readWrite) crowded =
        (.error (.noSpace 0x2000), crowded) := by
  have h : crowded.Reachable := ⟨_, _, rfl⟩
  have hone : crowded.Allocates 0x1000 "new" .readWrite
      (outcome (allocateOn .ample 1 "new" .readWrite) crowded) :=
    allocate_leastPlace "new" .readWrite h .ample (by decide) (by decide) (by decide)
  have htwo : crowded.Allocates 0x2000 "new" .readWrite
      (outcome (allocateOn .ample 0x1001 "new" .readWrite) crowded) :=
    allocate_leastPlace "new" .readWrite h .ample (by decide) (by decide) (by decide)
  have hok : (outcome (allocateOn .ample 1 "new" .readWrite) crowded).1 =
      .ok ⟨0x11008, 0x12008, .readWrite, 0, "new"⟩ := by decide +kernel
  have hfull : (outcome (allocateOn .ample 0x1001 "new" .readWrite) crowded).1 =
      .error (.noSpace 0x2000) := by decide +kernel
  refine ⟨h, hok, hone.start _ hok, ?_, htwo.full fun a ha => ?_⟩
  · rw [hone.cells _ hok]
    exact if_pos (by decide)
  -- two pages fit nowhere: a free place would make the second call succeed
  · obtain ⟨s, hs⟩ := htwo.isOk_iff.mpr ⟨a, ha⟩
    rw [hfull] at hs
    cases hs

end Memory

end Amd64
