import Amd64.Proofs.Memory.Allocate
import Amd64.Proofs.Memory.Unchanged

namespace Amd64

/-!
# Allocated pages and their neighbours

An allocation takes whole pages from the base of the window or from the end of another segment on.  Where that
segment ends inside a page the new one starts there, and shares this page with it.

* `Table.WholePages`        — all mappings start and end at the boundaries of pages;
* `Memory.wholePages_after`, `Memory.wholePages_afterCalls` — this stays so unless a call maps parts of pages;
* `Memory.found_of_allocateOn` — the place that an allocation took;
* `Memory.ProtectedAlone`   — a segment gets new permissions, and nothing else does;
* `Memory.AllocatedPages`   — where an allocated segment lies, and when it can be protected alone;
* `Memory.protect_allocated` — this is so of every allocated segment.
-/

/-! ### Whole pages -/

namespace Table

variable {t : Table}

/-- All mappings start and end at the boundaries of pages. -/
def WholePages (t : Table) : Prop :=
  ∀ m ∈ t, 4096 ∣ m.start ∧ 4096 ∣ m.stop

/-- A search ends at its cursor or at the end of a mapping. -/
theorem firstFit?_start {size limit cursor s : Nat} (hs : firstFit? size limit cursor t = some s) :
    s = cursor ∨ ∃ m ∈ t, m.stop = s := by
  fun_induction firstFit? size limit cursor t with
  | case1 | case3 | case6 => exact Or.inl (Option.some.inj hs).symm
  | case2 | case4 => cases hs
  | case5 cursor m t _ _ ih =>
    obtain hbase | ⟨n, hn, hstop⟩ := ih hs
    · exact Or.inl hbase
    · exact Or.inr ⟨n, List.mem_cons_of_mem m hn, hstop⟩
  | case7 cursor m t _ _ _ ih =>
    -- the cursor has moved to the end of `m`
    obtain rfl | ⟨n, hn, hstop⟩ := ih hs
    · exact Or.inr ⟨m, List.mem_cons_self .., rfl⟩
    · exact Or.inr ⟨n, List.mem_cons_of_mem m hn, hstop⟩

namespace WholePages

/-- A mapping of whole pages joins others. -/
theorem insert (h : t.WholePages) {m : Mapping} (hm : 4096 ∣ m.start ∧ 4096 ∣ m.stop) :
    (Table.insert m t).WholePages := by
  intro n hn
  obtain rfl | hn := mem_insert hn
  · exact hm
  · exact h n hn

theorem erase (h : t.WholePages) (a : UInt64) : (Table.erase a t).WholePages :=
  fun n hn => h n ((erase_sublist a t).subset hn)

/-- A division at the boundary of a page leaves whole pages on both sides. -/
theorem splitAt (h : t.WholePages) {a : UInt64} (ha : 4096 ∣ a.toNat) :
    (Table.splitAt a t).WholePages := by
  induction t with
  | nil => exact h
  | cons m t ih =>
    obtain ⟨⟨hstart, hstop⟩, ht⟩ := List.forall_mem_cons.mp h
    simp only [Table.splitAt]
    split
    · exact List.forall_mem_cons.mpr ⟨⟨hstart, ha⟩, List.forall_mem_cons.mpr ⟨⟨ha, hstop⟩, ht⟩⟩
    · exact List.forall_mem_cons.mpr ⟨⟨hstart, hstop⟩, ih ht⟩

/-- New permissions do not move borders. -/
theorem setPermissions (h : t.WholePages) (start stop : UInt64) (p : Permissions) :
    (t.setPermissions start stop p).WholePages := by
  intro n hn
  obtain ⟨m, hm, rfl⟩ := List.mem_map.mp hn
  have hpages := h m hm
  split <;> exact hpages

/-- New bytes do not move borders. -/
theorem scatter (h : t.WholePages) (data : ByteArray) (a pos : Nat) :
    (t.scatter data a pos).WholePages := by
  intro n hn
  -- the segments are those that there were
  have hsegment : n.segment ∈ t.map Mapping.segment := by
    rw [← segments_scatter data t a pos]
    exact List.mem_map_of_mem hn
  obtain ⟨m, hm, hmn⟩ := List.mem_map.mp hsegment
  have hpages := h m hm
  rw [Mapping.start, Mapping.stop, hmn] at hpages
  exact hpages

end WholePages

end Table

/-! ### Allocations on any host -/

namespace Memory

variable {m m' : Memory} {host : Host} {size : UInt64} {name : String} {p : Permissions} {s : Segment}

/-- The place that an allocation took. -/
theorem found_of_allocateOn (hok : outcome (allocateOn host size name p) m = (.ok s, m')) :
    size ≠ 0 ∧ ∃ len start, Page.ceil? size = some len ∧
      m.table.firstFit? len.toNat m.window.limit.toNat (Page.floor m.window.base).toNat = some start ∧
      s = ⟨UInt64.ofNat start, UInt64.ofNat start + len, p, 0, name⟩ ∧
      m' = ⟨m.window, m.table.insert ⟨s, zeros len.toNat⟩⟩ := by
  rw [outcome_allocateOn] at hok
  split at hok
  · cases hok
  · next hsize =>
    split at hok
    · cases hok
    · next len hlen =>
      split at hok
      · cases hok
      · next start hfit =>
        dsimp only at hok
        split at hok
        · obtain ⟨hs, rfl⟩ := Prod.mk.inj hok
          obtain rfl := Except.ok.inj hs
          exact ⟨hsize, len, start, hlen, hfit, rfl, rfl⟩
        · cases hok

/-- An address space with an allocated segment has a well-formed table, as it had before. -/
theorem wellFormed_of_allocateOn (h : m.table.WellFormed)
    (hok : outcome (allocateOn host size name p) m = (.ok s, m')) : m'.table.WellFormed := by
  obtain hsame | ⟨e, hrefused⟩ := allocateOn_cases host size name p m
  · have hafter : (MemoryCall.after (.allocate size name p) m).table.WellFormed :=
      wellFormed_after h (.allocate size name p)
    rwa [MemoryCall.after, MemoryCall.act, outcome_discard, ← hsame, hok] at hafter
  · rw [hok] at hrefused
    cases hrefused

/-- An allocated segment has whole pages as its size, and starts at the base of the window or where another
    segment ends. -/
theorem bounds_of_allocateOn (h : m.table.WellFormed)
    (hok : outcome (allocateOn host size name p) m = (.ok s, m')) :
    (∃ pages, 0 < pages ∧ s.stop.toNat = s.start.toNat + pages * 4096) ∧
      (s.start.toNat = pagesStart m.window.base ∨ ∃ r ∈ m.segments, r.stop = s.start) := by
  obtain ⟨hsize, len, start, hlen, hfit, rfl, -⟩ := found_of_allocateOn hok
  have hplaces := h.firstFit?_free hfit
  obtain ⟨hstart, hstop, -⟩ :=
    valid_allocated p name hsize hlen hplaces.2.1 (UInt64.toNat_lt_size _)
  obtain ⟨-, hround⟩ := Page.ceil?_eq_some_iff.mp hlen
  have hpos : 0 < size.toNat := Nat.pos_of_ne_zero fun hzero => hsize (UInt64.toNat.inj hzero)
  refine ⟨⟨(size.toNat + 4095) / 4096, by omega, ?_⟩, ?_⟩
  · rw [← hround]
    exact hstop.trans (congrArg (· + len.toNat) hstart.symm)
  · obtain hbase | ⟨n, hn, hend⟩ := Table.firstFit?_start hfit
    · exact Or.inl (hstart.trans (hbase.trans (Page.toNat_floor _)))
    · exact Or.inr ⟨n.segment, List.mem_map_of_mem hn, UInt64.toNat.inj (hend.trans hstart.symm)⟩

end Memory

/-! ### Calls that map whole pages -/

/-- Whether a call maps no segment that starts or ends inside a page. -/
def MemoryCall.MapsWholePages : MemoryCall → Prop
  | .map segment _ => 4096 ∣ segment.start.toNat ∧ 4096 ∣ segment.stop.toNat
  | _ => True

namespace Memory

variable {m : Memory}

/-- Pages that were allocated among whole pages are whole pages. -/
theorem wholePages_of_allocateOn {m' : Memory} {host : Host} {size : UInt64} {name : String}
    {p : Permissions} {s : Segment} (h : m.table.WellFormed) (hpages : m.table.WholePages)
    (hok : outcome (allocateOn host size name p) m = (.ok s, m')) :
    4096 ∣ s.start.toNat ∧ 4096 ∣ s.stop.toNat := by
  obtain ⟨⟨pages, -, hstop⟩, hstart⟩ := bounds_of_allocateOn h hok
  have haligned : 4096 ∣ s.start.toNat := by
    obtain hbase | ⟨r, hr, hend⟩ := hstart
    · rw [hbase]
      exact Nat.dvd_mul_left ..
    · obtain ⟨x, hx, rfl⟩ := List.mem_map.mp hr
      rw [← hend]
      exact (hpages x hx).2
  exact ⟨haligned, by rw [hstop]; exact Nat.dvd_add haligned (Nat.dvd_mul_left ..)⟩

/-- A write does not move borders. -/
theorem wholePages_store (hpages : m.table.WholePages) (enforce : Bool) (a : UInt64) (data : ByteArray) :
    (outcome (store enforce a data) m).2.table.WholePages := by
  rw [outcome_store]
  split
  · exact hpages.scatter data a.toNat 0
  · exact hpages

/-- **One call.** Calls that map whole pages leave whole pages. -/
theorem wholePages_after (h : m.table.WellFormed) (hpages : m.table.WholePages) {c : MemoryCall}
    (hc : c.MapsWholePages) : (c.after m).table.WholePages := by
  -- only a new mapping and a cut could leave a border inside of a page
  cases c with
  | allocate size name p =>
    simp only [MemoryCall.after, MemoryCall.act, outcome_discard, Memory.allocate]
    obtain ⟨r, m', hout⟩ : ∃ r m', outcome (allocateOn .ample size name p) m = (r, m') := ⟨_, _, rfl⟩
    cases r with
    | error e =>
      rw [reverts_allocateOn .ample size name p m e (congrArg Prod.fst hout)]
      exact hpages
    | ok s =>
      obtain ⟨-, len, start, -, -, -, hleft⟩ := found_of_allocateOn hout
      rw [hout, hleft]
      exact hpages.insert (wholePages_of_allocateOn h hpages hout)
  | map segment data =>
    simp only [MemoryCall.after, MemoryCall.act, Memory.map, outcome_mapOn]
    split
    · exact hpages
    · split
      · exact hpages
      · split
        · exact hpages
        · split
          · exact hpages
          · exact hpages.insert hc
  | unmap a =>
    simp only [MemoryCall.after, MemoryCall.act, outcome_discard, outcome_unmap]
    split
    · exact hpages
    · split
      · exact hpages
      · exact hpages.erase a
  | protect a len p =>
    simp only [MemoryCall.after, MemoryCall.act, outcome_protect]
    split
    · exact hpages
    · split
      · exact hpages
      · next stop hend =>
        split
        · exact hpages
        -- both cuts are at borders of pages
        · have hfloor : 4096 ∣ (Page.floor a).toNat := by
            rw [Page.toNat_floor]
            exact Nat.dvd_mul_left ..
          have hstop : 4096 ∣ stop.toNat := by
            rw [(pagesEnd?_eq_some_iff.mp hend).2]
            exact Nat.dvd_mul_left ..
          exact ((hpages.splitAt hfloor).splitAt hstop).setPermissions _ stop p
  | writeBytes a data => exact wholePages_store hpages true a data
  | writeWord w a v => exact wholePages_store hpages true a _
  | writeXmm a v => exact wholePages_store hpages true a _
  | poke a data => exact wholePages_store hpages false a data

/-- **All calls.** Where no call maps a part of a page there are whole pages only. -/
theorem wholePages_afterCalls {calls : List MemoryCall} (hcalls : ∀ c ∈ calls, c.MapsWholePages)
    (h : m.table.WellFormed) (hpages : m.table.WholePages) :
    (m.afterCalls calls).table.WholePages := by
  induction calls generalizing m with
  | nil => exact hpages
  | cons c calls ih =>
    obtain ⟨hc, hrest⟩ := List.forall_mem_cons.mp hcalls
    exact ih hrest (wellFormed_after h c) (wholePages_after h hpages hc)

/-! ### Protecting what was allocated -/

/-- New permissions `q` for the bytes of the segment `s` take effect on these and on no others. -/
def ProtectedAlone (m : Memory) (s : Segment) (q : Permissions) : Prop :=
  (outcome (protect s.start (s.stop - s.start) q) m).1 = .ok () ∧
    ∀ x, (outcome (protect s.start (s.stop - s.start) q) m).2.permissions? x =
      if s.start.toNat ≤ x ∧ x < s.stop.toNat then some q else m.permissions? x

variable {a len : UInt64} {q : Permissions}

/-- The pages of a range up to the end that was found for them. -/
theorem pagesStart_add_length {stop : UInt64} (hstop : stop.toNat = pagesStop a len) :
    pagesStart a + (stop.toNat - (Page.floor a).toNat) = pagesStop a len := by
  have hfloor : (Page.floor a).toNat = pagesStart a := Page.toNat_floor a
  rw [hfloor, hstop]
  unfold pagesStart pagesStop
  omega

/-- The check of a change of permissions looks at all pages of the range. -/
theorem obstacle?_pages (h : m.table.WellFormed) {stop : UInt64} (hstop : stop.toNat = pagesStop a len) :
    (m.table.obstacle? (fun _ => true) (Page.floor a).toNat
        (stop.toNat - (Page.floor a).toNat)).isSome = true ↔
      ∃ x, pagesStart a ≤ x ∧ x < pagesStop a len ∧ m.view? x = none := by
  have hfloor : (Page.floor a).toNat = pagesStart a := Page.toNat_floor a
  rw [obstacle?_isSome_iff h, ← pagesStart_add_length hstop, ← hfloor]

/-- A change of permissions succeeds where the pages are mapped. -/
theorem isOk_protect_of_mapped (h : m.table.WellFormed) (hfits : pagesStop a len < UInt64.size)
    (hmapped : ∀ x, pagesStart a ≤ x → x < pagesStop a len → (m.view? x).isSome) :
    (outcome (protect a len q) m).1 = .ok () := by
  rw [outcome_protect]
  split
  · rfl
  · split
    · next hend => exact absurd (pagesEnd?_eq_none_iff.mp hend) (Nat.not_le.mpr hfits)
    · next stop hend =>
      obtain ⟨-, hstop⟩ := pagesEnd?_eq_some_iff.mp hend
      have hnone : ¬ (m.table.obstacle? (fun _ => true) (Page.floor a).toNat
          (stop.toNat - (Page.floor a).toNat)).isSome = true := by
        rw [obstacle?_pages h hstop]
        rintro ⟨x, hlow, hhigh, hx⟩
        have hsome := hmapped x hlow hhigh
        rw [hx] at hsome
        cases hsome
      dsimp only
      rw [if_neg hnone]

/-- Permissions that change belong to pages that are mapped. -/
theorem protectsPages_of_isOk (h : m.table.WellFormed) (hlen : len ≠ 0)
    (hok : (outcome (protect a len q) m).1 = .ok ()) :
    m.ProtectsPages a len q (outcome (protect a len q) m) := by
  rw [outcome_protect, if_neg hlen] at hok ⊢
  split at hok
  · cases hok
  · next stop hend =>
    obtain ⟨-, hstop⟩ := pagesEnd?_eq_some_iff.mp hend
    dsimp only at hok
    split at hok
    · cases hok
    · next hnone =>
      rw [obstacle?_pages h hstop] at hnone
      dsimp only
      rw [if_neg (mt (obstacle?_pages h hstop).mp hnone)]
      refine protectsPages_of_mapped h q hlen hend fun x hlow hhigh => ?_
      rw [Option.isSome_iff_ne_none]
      exact fun hx => hnone ⟨x, hlow, hhigh, hx⟩

variable {s : Segment}

/-- The length of a segment that is not empty. -/
theorem toNat_length_segment (hpos : s.start.toNat < s.stop.toNat) :
    (s.stop - s.start).toNat = s.stop.toNat - s.start.toNat :=
  UInt64.toNat_sub_of_le _ _ (UInt64.le_iff_toNat_le.mpr (Nat.le_of_lt hpos))

/-- A segment that is not empty has a size. -/
theorem length_segment_ne_zero (hpos : s.start.toNat < s.stop.toNat) : s.stop - s.start ≠ 0 := by
  intro hzero
  have hlength := toNat_length_segment hpos
  rw [hzero, UInt64.toNat_zero] at hlength
  omega

/-- **Whole pages.** A mapped segment of whole pages can be protected alone. -/
theorem protectedAlone_of_wholePages (h : m.table.WellFormed) (hpos : s.start.toNat < s.stop.toNat)
    (hmapped : ∀ x, s.start.toNat ≤ x → x < s.stop.toNat → (m.view? x).isSome)
    (hstart : 4096 ∣ s.start.toNat) (hstop : 4096 ∣ s.stop.toNat) : m.ProtectedAlone s q := by
  have hlength := toNat_length_segment hpos
  have hlen := length_segment_ne_zero hpos
  have hfirst : pagesStart s.start = s.start.toNat := Nat.div_mul_cancel hstart
  have hlast : pagesStop s.start (s.stop - s.start) = s.stop.toNat := by
    unfold pagesStop
    omega
  have hok : (outcome (protect s.start (s.stop - s.start) q) m).1 = .ok () :=
    isOk_protect_of_mapped h (by rw [hlast]; exact s.stop.toNat_lt_size) (by rwa [hfirst, hlast])
  have hpages := protectsPages_of_isOk h hlen hok
  refine ⟨hok, fun x => ?_⟩
  split
  · next hx => exact hpages.inside hok hlen x (hfirst.trans_le hx.1) (hx.2.trans_eq hlast.symm)
  · next hx => exact hpages.outside hok x (by omega)

/-- **Shared pages.** Where a segment begins inside a page, right behind a byte that is mapped, there are
    permissions that this byte would get as well. -/
theorem not_protectedAlone_of_shared (h : m.table.WellFormed) (hpos : s.start.toNat < s.stop.toNat)
    (hshared : ¬ 4096 ∣ s.start.toNat) (hmapped : (m.view? (s.start.toNat - 1)).isSome) :
    ∃ q, ¬ m.ProtectedAlone s q := by
  obtain ⟨⟨b, p⟩, hcell⟩ := Option.isSome_iff_exists.mp hmapped
  have hlength := toNat_length_segment hpos
  have hlen := length_segment_ne_zero hpos
  -- permissions that the byte in front does not have
  refine ⟨{ p with read := !p.read }, fun ⟨hok, hperm⟩ => ?_⟩
  have hinside := (protectsPages_of_isOk h hlen hok).inside hok hlen (s.start.toNat - 1)
    (by unfold pagesStart; omega) (by unfold pagesStop; omega)
  have hkept := hperm (s.start.toNat - 1)
  rw [if_neg (by omega), hinside, permissions?, hcell] at hkept
  have hread : (!p.read) = p.read := congrArg Permissions.read (Option.some.inj hkept)
  cases hp : p.read <;> rw [hp] at hread <;> cases hread

/-- **Protection alone.** A mapped segment of whole pages in size can be given any permissions alone if and only
    if it starts at the boundary of a page, provided that the byte in front of it is mapped otherwise. -/
theorem forall_protectedAlone_iff (h : m.table.WellFormed) (hpos : s.start.toNat < s.stop.toNat)
    (hends : 4096 ∣ s.start.toNat → 4096 ∣ s.stop.toNat)
    (hmapped : ∀ x, s.start.toNat ≤ x → x < s.stop.toNat → (m.view? x).isSome)
    (hfront : ¬ 4096 ∣ s.start.toNat → (m.view? (s.start.toNat - 1)).isSome) :
    (∀ q, m.ProtectedAlone s q) ↔ 4096 ∣ s.start.toNat ∧ 4096 ∣ s.stop.toNat := by
  apply Iff.intro
  · intro halone
    by_contra hshared
    replace hshared : ¬ 4096 ∣ s.start.toNat := fun hs => hshared ⟨hs, hends hs⟩
    obtain ⟨q, hq⟩ := not_protectedAlone_of_shared h hpos hshared (hfront hshared)
    exact hq (halone q)
  · rintro ⟨hs, he⟩ q
    exact protectedAlone_of_wholePages h hpos hmapped hs he

/-- What is so of a segment `s` that was allocated in `m` and is part of `m'`. -/
structure AllocatedPages (m m' : Memory) (s : Segment) : Prop where
  /-- It has the size of one or more pages. -/
  size : ∃ pages, 0 < pages ∧ s.stop.toNat = s.start.toNat + pages * 4096
  /-- It starts at the base of the window, or right where another segment ends. -/
  start : s.start.toNat = pagesStart m.window.base ∨ ∃ r ∈ m.segments, r.stop = s.start
  /-- It can be given any permissions alone if and only if it starts and ends at the boundaries of pages. -/
  alone : (∀ q, m'.ProtectedAlone s q) ↔ 4096 ∣ s.start.toNat ∧ 4096 ∣ s.stop.toNat
  /-- It does so if no segment was ever mapped that does not. -/
  aligned : (∃ window calls, (∀ c ∈ calls, c.MapsWholePages) ∧ m = (empty window).afterCalls calls) →
    4096 ∣ s.start.toNat ∧ 4096 ∣ s.stop.toNat

/-- The last byte of a segment is mapped. -/
theorem isSome_view?_of_stop (h : m.table.WellFormed) {r : Segment} (hr : r ∈ m.segments) :
    (m.view? (r.stop.toNat - 1)).isSome := by
  obtain ⟨x, hx, rfl⟩ := List.mem_map.mp hr
  have hvalid := h.valid x hx
  have hpos := hvalid.start_lt_stop
  have hin : x.start ≤ x.stop - 1 ∧ x.stop - 1 < x.stop := by omega
  obtain ⟨b, hb⟩ := h.exists_view?_of_mem hx hin
  exact Option.isSome_iff_exists.mpr ⟨_, hb⟩

/-- The cells of an allocated segment, and those around it. -/
theorem view?_of_allocateOn {m' : Memory} {host : Host} {size : UInt64} {name : String} {p : Permissions}
    (h : m.table.WellFormed) (hok : outcome (allocateOn host size name p) m = (.ok s, m')) (x : Nat) :
    m'.view? x = if s.start.toNat ≤ x ∧ x < s.stop.toNat then some (0, p) else m.view? x := by
  obtain ⟨hsize, len, start, hlen, hfit, rfl, rfl⟩ := found_of_allocateOn hok
  exact (allocates_of_found name p h hsize hlen hfit).cells _ rfl x

/-- **Allocated pages.** In a reachable address space, whatever its window is, an allocated segment has the
    size of whole pages.  It starts at the boundary of a page unless the segment in front of it ends inside one.
    Exactly then there are permissions that it cannot be given alone. -/
theorem protect_allocated {m' : Memory} {host : Host} {size : UInt64} {name : String} {p : Permissions}
    (h : m.Reachable) (hok : outcome (allocateOn host size name p) m = (.ok s, m')) :
    m.AllocatedPages m' s := by
  obtain ⟨⟨pages, hpages, hstop⟩, hstart⟩ := bounds_of_allocateOn h.wellFormed hok
  have hwf' : m'.table.WellFormed := wellFormed_of_allocateOn h.wellFormed hok
  have hcells := view?_of_allocateOn h.wellFormed hok
  have hpos : s.start.toNat < s.stop.toNat := by omega
  constructor
  case size => exact ⟨pages, hpages, hstop⟩
  case start => exact hstart
  -- calls that map whole pages only leave every bound on a page boundary
  case aligned =>
    rintro ⟨window, calls, hcalls, rfl⟩
    have hwhole := wholePages_afterCalls hcalls (m := empty window) Table.wellFormed_nil nofun
    exact wholePages_of_allocateOn h.wellFormed hwhole hok
  case alone =>
    apply forall_protectedAlone_iff hwf' hpos
    · intro hs
      rw [hstop]
      exact Nat.dvd_add hs (Nat.dvd_mul_left ..)
    · intro x hlow hhigh
      rw [hcells, if_pos ⟨hlow, hhigh⟩]
      rfl
    · intro hshared
      obtain hbase | ⟨r, hr, hend⟩ := hstart
      · apply absurd _ hshared
        rw [hbase]
        exact Nat.dvd_mul_left ..
      · -- the segment in front ends inside the page, and its last byte stays where it was
        rw [hcells, if_neg (by omega), ← hend]
        exact isSome_view?_of_stop h.wellFormed hr

/-- Behind sixteen mapped bytes a page is allocated that starts at the seventeenth byte of a page. -/
theorem protect_allocated_behindShort :
    let m := (empty ⟨0x10000, 0x12000⟩).afterCalls
      [.map ⟨0x10000, 0x10010, .readWrite, 0, "short"⟩ ByteArray.empty]
    let result := outcome (allocateOn .ample 1 "page" .readWrite) m
    m.Reachable ∧ result.1 = .ok ⟨0x10010, 0x11010, .readWrite, 0, "page"⟩ ∧
      ¬ ∀ q, result.2.ProtectedAlone ⟨0x10010, 0x11010, .readWrite, 0, "page"⟩ q := by
  intro m result
  have h : m.Reachable := ⟨_, _, rfl⟩
  have hok : result.1 = .ok ⟨0x10010, 0x11010, .readWrite, 0, "page"⟩ := by decide +kernel
  have hpages := protect_allocated h
    (Prod.ext hok rfl : outcome (allocateOn .ample 1 "page" .readWrite) m = (_, _))
  refine ⟨h, hok, fun halone => ?_⟩
  obtain ⟨hstart, -⟩ := hpages.alone.mp halone
  exact absurd hstart (by decide)

end Memory

end Amd64
