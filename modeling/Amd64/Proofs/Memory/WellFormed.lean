import Amd64.Memory.Layout
import Amd64.Memory.Transfer

namespace Amd64

/-!
# Well-formed tables

* `Mapping.Valid` — a mapping that holds an address and has one byte for each address;
* `Table.WellFormed` — valid mappings in address order, none of which meets another;
* `WellFormed.find?_eq_some_iff`, `WellFormed.overlaps_eq_false_iff` — looking at one neighbour is
  enough in such a table;
* `WellFormed.insert`, `WellFormed.erase`, `WellFormed.splitAt`, `WellFormed.setPermissions`,
  `WellFormed.scatter` — what memory operations do to a table keeps it well formed;
* `WellFormed.firstFit?_free` — a place that is found is free.
-/

/-- A segment has the addresses from its start up to its end. -/
theorem Segment.contains_iff (s : Segment) (a : UInt64) :
    s.contains a = true ↔ s.start.toNat ≤ a.toNat ∧ a.toNat < s.stop.toNat := by
  simp [Segment.contains, UInt64.le_iff_toNat_le, UInt64.lt_iff_toNat_lt]

/-- A mapping that holds an address and has one byte for each address. -/
structure Mapping.Valid (m : Mapping) : Prop where
  start_lt_stop : m.start < m.stop
  size_bytes : m.bytes.size = m.stop - m.start

namespace Mapping

/-- An address inside of a mapping, so that both parts are not empty. -/
theorem strictlyInside_iff {m : Mapping} {a : UInt64} :
    (m.segment.start < a && a < m.segment.stop) = true ↔ m.start < a.toNat ∧ a.toNat < m.stop := by
  simp [start, stop, UInt64.lt_iff_toNat_lt]

namespace Valid

variable {m : Mapping} {a : UInt64}

/-- The lower part of a mapping that is divided strictly inside. -/
theorem below (h : m.Valid) (hlo : m.start < a.toNat) (hhi : a.toNat < m.stop) :
    (m.below a).Valid := by
  have hs := h.size_bytes
  refine ⟨hlo, ?_⟩
  show (m.bytes.extract 0 (a.toNat - m.start)).size = a.toNat - m.start
  rw [ByteArray.size_extract]
  omega

/-- The upper part of a mapping that is divided strictly inside. -/
theorem above (h : m.Valid) (hlo : m.start < a.toNat) (hhi : a.toNat < m.stop) :
    (m.above a).Valid := by
  have hs := h.size_bytes
  refine ⟨hhi, ?_⟩
  show (m.bytes.extract (a.toNat - m.start) m.bytes.size).size = m.stop - a.toNat
  rw [ByteArray.size_extract]
  omega

/-- Replacing bytes inside a mapping keeps their number. -/
theorem overwrite (h : m.Valid) {off pos n : Nat} {data : ByteArray}
    (hoff : off + n ≤ m.stop - m.start) (hpos : pos + n ≤ data.size) :
    (m.overwrite off data pos n).Valid := by
  refine ⟨h.start_lt_stop, ?_⟩
  show (data.copySlice pos m.bytes off n).size = m.stop - m.start
  have hs := h.size_bytes
  rw [← length_byteList, byteList_copySlice]
  simp only [List.length_append, List.length_take, List.length_drop, length_byteList]
  omega

end Valid

end Mapping

namespace Table

/-- Valid mappings in address order, none of which meets another. -/
structure WellFormed (t : Table) : Prop where
  valid : ∀ m ∈ t, m.Valid
  ordered : t.Pairwise fun m n => m.stop ≤ n.start

variable {t : Table} {m n : Mapping}

theorem wellFormed_nil : WellFormed [] :=
  ⟨by simp, List.Pairwise.nil⟩

/-- A table is well formed if its first mapping is below the others and these are well formed. -/
theorem wellFormed_cons :
    WellFormed (m :: t) ↔ m.Valid ∧ (∀ n ∈ t, m.stop ≤ n.start) ∧ t.WellFormed := by
  constructor
  · rintro ⟨hv, ho⟩
    rw [List.pairwise_cons] at ho
    exact ⟨hv m (by simp), ho.1, fun n hn => hv n (by simp [hn]), ho.2⟩
  · rintro ⟨hm, hn, ht⟩
    refine ⟨?_, List.pairwise_cons.mpr ⟨hn, ht.ordered⟩⟩
    intro x hx
    rcases List.mem_cons.mp hx with rfl | hx
    · exact hm
    · exact ht.valid x hx

/-! ### What operations do to the list -/

/-- No other mapping comes in. -/
theorem mem_insert (hn : n ∈ insert m t) : n = m ∨ n ∈ t := by
  induction t with
  | nil => exact Or.inl (by simpa [insert] using hn)
  | cons x t ih =>
    simp only [insert] at hn
    -- the new mapping stands before `x`, takes its place, or goes further down
    split at hn
    · simpa using hn
    · split at hn
      · rcases List.mem_cons.mp hn with hn | hn
        · exact Or.inl hn
        · exact Or.inr (by simp [hn])
      · rcases List.mem_cons.mp hn with hn | hn
        · exact Or.inr (by simp [hn])
        · exact (ih hn).imp_right fun hn => by simp [hn]

/-- No mapping moves when one is taken away. -/
theorem erase_sublist (a : UInt64) (t : Table) :
    (erase a t).Sublist t := by
  induction t with
  | nil => simp [erase]
  | cons m t ih =>
    simp only [erase]
    split
    · exact List.sublist_cons_self m t
    · exact ih.cons_cons m

/-- A cut adds no mapping below the others. -/
theorem le_start_splitAt {k : Nat} {a : UInt64} (h : ∀ n ∈ t, k ≤ n.start) :
    ∀ n ∈ splitAt a t, k ≤ n.start := by
  induction t with
  | nil => simp [splitAt]
  | cons m t ih =>
    have hm := h m (by simp)
    have ht : ∀ n ∈ t, k ≤ n.start := fun n hn => h n (by simp [hn])
    simp only [splitAt]
    split
    · next hin =>
      -- the upper part starts at `a`, which is above the start of `m`
      obtain ⟨hlo, _⟩ := Mapping.strictlyInside_iff.mp hin
      intro n hn
      rcases List.mem_cons.mp hn with rfl | hn
      · exact hm
      · rcases List.mem_cons.mp hn with rfl | hn
        · show k ≤ a.toNat
          omega
        · exact ht n hn
    · intro n hn
      rcases List.mem_cons.mp hn with rfl | hn
      · exact hm
      · exact ih ht n hn

/-- Writing keeps all segments. -/
theorem segments_scatter (data : ByteArray) (t : Table) (a pos : Nat) :
    (t.scatter data a pos).map Mapping.segment = t.map Mapping.segment := by
  fun_induction scatter data t a pos with
  | case1 | case2 | case4 | case5 => rfl
  | case3 m t a pos _ _ ih => rw [List.map_cons, List.map_cons, ih]
  | case6 m t a pos _ _ _ off room _ next ih => rw [List.map_cons, List.map_cons, ih]; rfl

/-- New bytes add no mapping below the others. -/
theorem le_start_scatter {k : Nat} {data : ByteArray} {a pos : Nat} (h : ∀ n ∈ t, k ≤ n.start) :
    ∀ n ∈ t.scatter data a pos, k ≤ n.start := by
  intro n hn
  have hseg : n.segment ∈ t.map Mapping.segment := by
    rw [← segments_scatter data t a pos]
    exact List.mem_map_of_mem hn
  obtain ⟨y, hy, hyn⟩ := List.mem_map.mp hseg
  have hstart : y.start = n.start := congrArg (fun s => s.start.toNat) hyn
  exact hstart ▸ h y hy

/-- Writing keeps one byte for each address. -/
theorem valid_scatter {data : ByteArray} {a pos : Nat} (h : ∀ m ∈ t, m.Valid) :
    ∀ m ∈ t.scatter data a pos, m.Valid := by
  -- only the mappings along the walk change, and each of them is overwritten inside its bounds
  fun_induction scatter data t a pos with
  | case1 | case2 | case4 => exact h
  | case3 m t a pos _ _ ih =>
    exact List.forall_mem_cons.mpr ⟨h m (by simp), ih fun n hn => h n (by simp [hn])⟩
  | case5 m t a pos _ _ _ off room hroom =>
    refine List.forall_mem_cons.mpr ⟨(h m (by simp)).overwrite ?_ ?_, fun n hn => h n (by simp [hn])⟩
    all_goals omega
  | case6 m t a pos _ _ _ off room hroom next ih =>
    refine List.forall_mem_cons.mpr
      ⟨(h m (by simp)).overwrite ?_ ?_, ih fun n hn => h n (by simp [hn])⟩
    all_goals omega

/-- The order of mappings is the order of their segments. -/
theorem ordered_iff_segments :
    (t.Pairwise fun m n => m.stop ≤ n.start) ↔
      (t.map Mapping.segment).Pairwise fun r s => r.stop.toNat ≤ s.start.toNat := by
  rw [List.pairwise_map]
  exact Iff.rfl

namespace WellFormed

/-- What lies at or below the start of the first mapping lies at or below all starts. -/
theorem start_le (h : WellFormed (m :: t)) {k : Nat} (hk : k ≤ m.start) :
    ∀ n ∈ m :: t, k ≤ n.start := by
  obtain ⟨hm, hmt, _⟩ := wellFormed_cons.mp h
  have hv := hm.start_lt_stop
  intro n hn
  rcases List.mem_cons.mp hn with rfl | hn
  · exact hk
  · have := hmt n hn; omega

/-! ### One neighbour is enough -/

/-- The last mapping whose start meets `p` lies behind all others that do. -/
theorem lastStarting?_spec (h : t.WellFormed) {p : UInt64 → Bool} (hm : m ∈ t)
    (hp : p m.segment.start = true) :
    ∃ l ∈ t, t.lastStarting? p = some l ∧ p l.segment.start = true ∧ (m = l ∨ m.stop ≤ l.start) := by
  have hmem : m ∈ t.filter fun m => p m.segment.start := List.mem_filter.mpr ⟨hm, hp⟩
  obtain ⟨l, hl⟩ : ∃ l, t.lastStarting? p = some l :=
    Option.isSome_iff_exists.mp (List.getLast?_isSome.mpr (List.ne_nil_of_mem hmem))
  obtain ⟨hlt, hlp⟩ := List.mem_filter.mp (List.mem_of_getLast? hl)
  refine ⟨l, hlt, hl, hlp, ?_⟩
  -- the mappings that meet `p` stand in the same order, and `l` is the last of them
  obtain ⟨ys, hys⟩ := List.getLast?_eq_some_iff.mp hl
  have hord := h.ordered.filter fun m => p m.segment.start
  rw [hys] at hord hmem
  rcases List.mem_append.mp hmem with hin | hin
  · exact Or.inr ((List.pairwise_append.mp hord).2.2 m hin l (by simp))
  · exact Or.inl (List.mem_singleton.mp hin)

/-- **Lookup.** A lookup finds the mapping that covers the address. -/
theorem find?_eq_some_iff (h : t.WellFormed) {a : UInt64} :
    t.find? a = some m ↔ m ∈ t ∧ m.segment.contains a = true := by
  constructor
  · intro hf
    obtain ⟨hlast, hc⟩ := Option.filter_eq_some_iff.mp hf
    exact ⟨(List.mem_filter.mp (List.mem_of_getLast? hlast)).1, hc⟩
  · rintro ⟨hm, hc⟩
    have hc' := (Segment.contains_iff _ _).mp hc
    have hle : m.segment.start ≤ a := UInt64.le_iff_toNat_le.mpr hc'.1
    obtain ⟨l, hl, hlast, hp, rfl | hml⟩ := h.lastStarting?_spec hm (p := (· ≤ a)) (by simpa using hle)
    · exact Option.filter_eq_some_iff.mpr ⟨hlast, hc⟩
    · -- `m` ends at or below the start of `l`, which is at or below `a`
      have hla : l.start ≤ a.toNat := UInt64.le_iff_toNat_le.mp (by simpa using hp)
      have hma : a.toNat < m.stop := hc'.2
      omega

/-- **Overlap.** Looking at the last mapping that starts below the end of a range is enough to know
    that the range is free. -/
theorem overlaps_eq_false_iff (h : t.WellFormed) {start stop : UInt64} :
    t.overlaps start stop = false ↔ ∀ m ∈ t, m.stop ≤ start.toNat ∨ stop.toNat ≤ m.start := by
  constructor
  · intro hov m hm
    by_cases hlt : m.segment.start < stop
    · obtain ⟨l, hl, hlast, -, hml⟩ := h.lastStarting?_spec hm (p := (· < stop)) (by simpa using hlt)
      have hls : l.stop ≤ start.toNat := by
        have hnot : ¬ start < l.segment.stop := by simpa [overlaps, hlast] using hov
        exact Nat.not_lt.mp fun hlt => hnot (UInt64.lt_iff_toNat_lt.mpr hlt)
      -- `m` is the neighbour or ends below it, so the neighbour decides
      have hv := (h.valid l hl).start_lt_stop
      rcases hml with rfl | hml
      · exact Or.inl hls
      · exact Or.inl (by omega)
    · exact Or.inr (Nat.not_lt.mp fun hn => hlt (UInt64.lt_iff_toNat_lt.mpr hn))
  · intro hfree
    cases hlast : t.lastStarting? (· < stop) with
    | none => simp [overlaps, hlast]
    | some l =>
      obtain ⟨hl, hp⟩ := List.mem_filter.mp (List.mem_of_getLast? hlast)
      have hls : l.start < stop.toNat := UInt64.lt_iff_toNat_lt.mp (by simpa using hp)
      have hle : l.stop ≤ start.toNat := by
        have := hfree l hl
        omega
      have hnot : ¬ start < l.segment.stop :=
        fun hlt => absurd (UInt64.lt_iff_toNat_lt.mp hlt) (Nat.not_lt.mpr hle)
      simpa [overlaps, hlast] using hnot

/-! ### Adding and removing -/

/-- Some mappings of a well-formed table are well formed. -/
theorem sublist {u : Table} (h : t.WellFormed) (hu : u.Sublist t) : u.WellFormed :=
  ⟨fun m hm => h.valid m (hu.subset hm), h.ordered.sublist hu⟩

/-- A mapping that meets no other may be added. -/
theorem insert (h : t.WellFormed) (hm : m.Valid)
    (hfree : ∀ n ∈ t, n.stop ≤ m.start ∨ m.stop ≤ n.start) : (Table.insert m t).WellFormed := by
  induction t with
  | nil => exact wellFormed_cons.mpr ⟨hm, by simp, wellFormed_nil⟩
  | cons x t ih =>
    obtain ⟨hx, hxt, ht⟩ := wellFormed_cons.mp h
    have hmv := hm.start_lt_stop
    have hxv := hx.start_lt_stop
    have hmx := hfree x (by simp)
    simp only [Table.insert]
    split
    · next hlt =>
      have hlt' : m.start < x.start := UInt64.lt_iff_toNat_lt.mp hlt
      have hstop : m.stop ≤ x.start := by omega
      refine wellFormed_cons.mpr ⟨hm, ?_, h⟩
      intro n hn
      rcases List.mem_cons.mp hn with rfl | hn
      · exact hstop
      · have := hxt n hn; omega
    · next hge =>
      have hge' : x.start ≤ m.start :=
        Nat.not_lt.mp fun hlt => hge (UInt64.lt_iff_toNat_lt.mpr hlt)
      split
      · next heq =>
        -- a mapping with the same start would meet the new one
        have heq' : m.start = x.start := congrArg UInt64.toNat heq
        omega
      · have hstop : x.stop ≤ m.start := by omega
        refine wellFormed_cons.mpr ⟨hx, ?_, ih ht fun n hn => hfree n (by simp [hn])⟩
        intro n hn
        rcases mem_insert hn with rfl | hn
        · exact hstop
        · exact hxt n hn

/-- A table without one of its mappings is well formed. -/
theorem erase (h : t.WellFormed) (a : UInt64) : (Table.erase a t).WellFormed :=
  h.sublist (erase_sublist a t)

/-! ### New permissions -/

/-- Dividing a mapping keeps the others apart from both parts. -/
theorem splitAt (h : t.WellFormed) (a : UInt64) : (Table.splitAt a t).WellFormed := by
  induction t with
  | nil => exact wellFormed_nil
  | cons m t ih =>
    obtain ⟨hm, hmt, ht⟩ := wellFormed_cons.mp h
    simp only [Table.splitAt]
    split
    · next hin =>
      obtain ⟨hlo, hhi⟩ := Mapping.strictlyInside_iff.mp hin
      -- the lower part ends where the upper one starts
      have habove : WellFormed (m.above a :: t) := wellFormed_cons.mpr ⟨hm.above hlo hhi, hmt, ht⟩
      refine wellFormed_cons.mpr ⟨hm.below hlo hhi, ?_, habove⟩
      intro n hn
      rcases List.mem_cons.mp hn with rfl | hn
      · exact Nat.le_refl _
      · have hmn := hmt n hn
        show a.toNat ≤ n.start
        omega
    · exact wellFormed_cons.mpr ⟨hm, le_start_splitAt hmt, ih ht⟩

/-- Permissions do not matter for the order of mappings. -/
theorem setPermissions (h : t.WellFormed) (start stop : UInt64) (p : Permissions) :
    (t.setPermissions start stop p).WellFormed := by
  refine ⟨?_, List.pairwise_map.mpr (h.ordered.imp ?_)⟩
  · intro n hn
    obtain ⟨m, hm, rfl⟩ := List.mem_map.mp hn
    have hv := h.valid m hm
    split
    · exact ⟨hv.start_lt_stop, hv.size_bytes⟩
    · exact hv
  · intro m n hmn
    split <;> split <;> exact hmn

/-! ### Replaced bytes -/

/-- Bytes may be replaced wherever the segments stay. -/
theorem scatter (h : t.WellFormed) (data : ByteArray) (a pos : Nat) :
    (t.scatter data a pos).WellFormed := by
  refine ⟨?_, ordered_iff_segments.mpr ?_⟩
  · exact valid_scatter h.valid
  · rw [segments_scatter]
    exact ordered_iff_segments.mp h.ordered

/-! ### Free places -/

/-- **First fit.** A place that is found lies in the window and meets no mapping. -/
theorem firstFit?_free (h : t.WellFormed) {size limit cursor s : Nat}
    (hs : firstFit? size limit cursor t = some s) :
    cursor ≤ s ∧ s + size ≤ limit ∧ ∀ n ∈ t, n.stop ≤ s ∨ s + size ≤ n.start := by
  fun_induction firstFit? size limit cursor t with
  | case1 cursor hle =>
    obtain rfl := Option.some.inj hs
    exact ⟨Nat.le_refl _, hle, by simp⟩
  | case2 | case4 => simp at hs
  | case3 cursor m t hlim hle =>
    -- all mappings from here on start at or behind the end of the window
    obtain rfl := Option.some.inj hs
    have hbehind := h.start_le (k := limit) hlim
    exact ⟨Nat.le_refl _, hle, fun n hn => Or.inr (Nat.le_trans hle (hbehind n hn))⟩
  | case5 cursor m t _ hstop ih =>
    obtain ⟨_, _, ht⟩ := wellFormed_cons.mp h
    -- `m` ends below the cursor, and what is found further on lies behind the cursor
    obtain ⟨hcur, hfit, hfree⟩ := ih ht hs
    refine ⟨hcur, hfit, List.forall_mem_cons.mpr ⟨Or.inl (Nat.le_trans hstop hcur), hfree⟩⟩
  | case6 cursor m t hlim _ hgap =>
    obtain rfl := Option.some.inj hs
    have hbehind := h.start_le (k := cursor + size) hgap
    exact ⟨Nat.le_refl _, by omega, fun n hn => Or.inr (hbehind n hn)⟩
  | case7 cursor m t _ hstop _ ih =>
    obtain ⟨_, _, ht⟩ := wellFormed_cons.mp h
    -- the search goes on at the end of `m`
    obtain ⟨hcur, hfit, hfree⟩ := ih ht hs
    exact ⟨by omega, hfit, List.forall_mem_cons.mpr ⟨Or.inl hcur, hfree⟩⟩

end WellFormed

end Table

end Amd64
