import Amd64.Proofs.Memory.Access
import Mathlib.Data.List.TakeWhile

namespace Amd64

/-!
# Fetching code

Code is fetched as far as it may be executed, across segments that lie side by side.

* `Table.code` — the addresses of the longest run of executable cells from an address on;
* `WellFormed.byteList_runnable` — a walk along the segments yields the bytes at these addresses;
* `Memory.byteList_fetch`, `Memory.permits_fetch` — what a fetch yields, and that it may be executed;
* `Memory.fetch_congr` — fetches see no cells but executable ones;
* `Memory.exists_fetch_of_permissions` — front parts of what is fetched depend on their own cells only.
-/

namespace Table

variable {t : Table}

/-- Whether the byte at an address may be executed. -/
def runs (t : Table) (x : Nat) : Bool :=
  (t.view? x).any fun c => c.2.execute

/-- The addresses from `a` on, at most `n` of them, up to the first that may not be executed. -/
def code (t : Table) (a n : Nat) : List Nat :=
  (List.range' a n).takeWhile t.runs

@[simp] theorem code_zero (t : Table) (a : Nat) : t.code a 0 = [] := rfl

/-- The addresses that can be run stop before the first one that cannot. -/
theorem code_succ (t : Table) (a n : Nat) :
    t.code a (n + 1) = if t.runs a then a :: t.code (a + 1) n else [] := by
  rw [code, List.range'_succ, List.takeWhile_cons]
  rfl

/-- Where the first byte cannot be run there is no code. -/
theorem code_of_not_runs {a : Nat} (h : t.runs a = false) (n : Nat) : t.code a n = [] := by
  cases n with
  | zero => rfl
  | succ n => rw [code_succ, h]; rfl

/-- The code depends on the bytes of the range only. -/
theorem code_congr {u : Table} {a n : Nat} (h : ∀ x, a ≤ x → x < a + n → t.runs x = u.runs x) :
    t.code a n = u.code a n := by
  induction n generalizing a with
  | zero => rfl
  | succ n ih =>
    have htail := ih fun x (hax : a + 1 ≤ x) hxn => h x (by omega) (by omega)
    rw [code_succ, code_succ, h a (Nat.le_refl a) (by omega), htail]

/-- Behind cells that all may be executed the run goes on. -/
theorem code_add {a k : Nat} (h : ∀ x, a ≤ x → x < a + k → t.runs x = true) (n : Nat) :
    t.code a (k + n) = List.range' a k ++ t.code (a + k) n := by
  rw [code, code, ← List.range'_append_1]
  refine List.takeWhile_append_of_pos fun x hx => ?_
  obtain ⟨hax, hxk⟩ := List.mem_range'_1.mp hx
  exact h x hax hxk

/-- All addresses of code can be run. -/
theorem runs_of_mem_code {a n x : Nat} (h : x ∈ t.code a n) : t.runs x = true :=
  List.mem_takeWhile_imp h

/-- A run begins at its first address and has no gaps. -/
theorem code_eq_range' (t : Table) (a n : Nat) : t.code a n = List.range' a (t.code a n).length := by
  induction n generalizing a with
  | zero => rfl
  | succ n ih =>
    rw [code_succ]
    split
    · rw [List.length_cons, List.range'_succ, ← ih]
    · rfl

/-- A run that ends early ends where a byte may not be executed. -/
theorem not_runs_of_length_code (t : Table) (a n : Nat) (hshort : (t.code a n).length < n) :
    t.runs (a + (t.code a n).length) = false := by
  induction n generalizing a with
  | zero => cases hshort
  | succ n ih =>
    cases hruns : t.runs a with
    | false =>
      rw [code_of_not_runs hruns]
      exact hruns
    | true =>
      rw [code_succ, hruns, if_pos rfl, List.length_cons] at hshort ⊢
      have hlater := ih (a + 1) (Nat.lt_of_succ_lt_succ hshort)
      rwa [Nat.add_right_comm] at hlater

/-- The first addresses of code are the first of the range. -/
theorem bounds_of_mem_take_code {a n k x : Nat} (h : x ∈ (t.code a n).take k) :
    a ≤ x ∧ x < a + k := by
  obtain ⟨i, hi⟩ := List.getElem?_of_mem h
  rw [code_eq_range', List.getElem?_take] at hi
  split at hi
  · obtain ⟨hlen, hx⟩ := List.getElem?_eq_some_iff.mp hi
    rw [List.getElem_range'] at hx
    omega
  · exact nomatch hi

namespace WellFormed

variable {m : Mapping} {x : Nat}

/-- The cells of a mapping may be executed if it may. -/
theorem runs_of_mem (h : t.WellFormed) (hm : m ∈ t) (hx : m.start ≤ x ∧ x < m.stop) :
    t.runs x = m.segment.permissions.execute := by
  obtain ⟨b, hb⟩ := h.exists_view?_of_mem hm hx
  rw [runs, hb]
  rfl

/-- What is above the first mapping is in the others. -/
theorem runs_cons_above (t : Table) (hx : m.stop ≤ x) : runs (m :: t) x = runs t x := by
  rw [runs, runs, view?_cons_of_outside t (Or.inr hx)]

/-- The bytes of a mapping from one of its addresses on are those of the cells there. -/
theorem extract_of_mem (h : t.WellFormed) (hm : m ∈ t) {a n : Nat} (ha : m.start ≤ a)
    (hn : a + n ≤ m.stop) :
    (byteList (m.bytes.extract (a - m.start) (a - m.start + n))).map some =
      (List.range' a n).map fun x => (t.view? x).map Prod.fst := by
  have hsize := (h.valid m hm).size_bytes
  rw [byteList_extract, Nat.add_sub_cancel_left]
  apply List.ext_getElem
  · simp only [List.length_map, List.length_take, List.length_drop, length_byteList, List.length_range']
    omega
  · intro i hi _
    simp only [List.length_map, List.length_take, List.length_drop, length_byteList] at hi
    have hin : m.start ≤ a + i ∧ a + i < m.stop := by omega
    have hposition : a + i - m.start = a - m.start + i := by omega
    have hcell : t.view? (a + i) = (byteList m.bytes)[a - m.start + i]?.map fun b =>
        (b, m.segment.permissions) := by
      rw [h.view?_of_covers hm hin, Mapping.cell?_eq_map hin, hposition]
    have hlength : a - m.start + i < (byteList m.bytes).length := by
      rw [length_byteList]
      omega
    simp only [List.getElem_map, List.getElem_take, List.getElem_drop, List.getElem_range', Nat.one_mul,
      hcell, List.getElem?_eq_getElem hlength, Option.map_some]

/-- **Code.** A walk along executable segments yields the bytes of the longest executable run. -/
theorem byteList_runnable (h : t.WellFormed) (a n : Nat) :
    (byteList (t.runnable a n)).map some =
      (t.code a n).map fun x => (t.view? x).map Prod.fst := by
  fun_induction runnable t a n with
  | case1 a n => rw [code_of_not_runs rfl]; rfl
  | case2 => rfl
  | case3 m t a n _ hstop ih =>
    obtain ⟨_, _, ht⟩ := wellFormed_cons.mp h
    -- the first mapping ends at or below `a`
    have hcode : code (m :: t) a n = code t a n :=
      code_congr fun x hax _ => runs_cons_above t (Nat.le_trans hstop hax)
    rw [ih ht, hcode]
    refine List.map_congr_left fun x hx => ?_
    have hax : a ≤ x := (List.mem_range'_1.mp ((List.takeWhile_sublist _).mem hx)).1
    rw [view?_cons_of_outside t (Or.inr (Nat.le_trans hstop hax))]
  | case4 m t a n _ hstop hno =>
    have hruns : runs (m :: t) a = false := by
      by_cases hbefore : a < m.start
      · rw [runs, h.view?_before hbefore]
        rfl
      · rw [h.runs_of_mem (List.mem_cons_self ..) (by omega)]
        simpa [hbefore] using hno
    rw [code_of_not_runs hruns]
    rfl
  | case5 m t a n _ hstop hyes hfit =>
    obtain ⟨hbefore, hexec⟩ : m.start ≤ a ∧ m.segment.permissions.execute = true := by
      simpa using hyes
    have hcode := code_add (t := m :: t) (a := a) (k := n)
      (fun x hax hxn => by rw [h.runs_of_mem (List.mem_cons_self ..) (by omega), hexec]) 0
    rw [Nat.add_zero, code_zero, List.append_nil] at hcode
    rw [hcode, h.extract_of_mem (List.mem_cons_self ..) hbefore (by omega)]
  | case6 m t a n _ hstop hyes hlong ih =>
    obtain ⟨_, _, ht⟩ := wellFormed_cons.mp h
    obtain ⟨hbefore, hexec⟩ : m.start ≤ a ∧ m.segment.permissions.execute = true := by
      simpa using hyes
    -- up to its end the first mapping runs, behind it the run is that of the others
    have hcode := code_add (t := m :: t) (a := a) (k := m.stop - a)
      (fun x hax hxn => by rw [h.runs_of_mem (List.mem_cons_self ..) (by omega), hexec]) (n - (m.stop - a))
    have hrest : code (m :: t) m.stop (n - (m.stop - a)) = code t m.stop (n - (m.stop - a)) :=
      code_congr fun x hax _ => runs_cons_above t hax
    rw [show m.stop - a + (n - (m.stop - a)) = n by omega, show a + (m.stop - a) = m.stop by omega,
      hrest] at hcode
    have hfirst := h.extract_of_mem (List.mem_cons_self ..) (n := m.stop - a) hbefore (by omega)
    rw [show a - m.start + (m.stop - a) = m.stop - m.start by omega] at hfirst
    rw [byteList_append, List.map_append, hfirst, ih ht, hcode, List.map_append]
    congr 1
    refine List.map_congr_left fun x hx => ?_
    have hax : m.stop ≤ x := (List.mem_range'_1.mp ((List.takeWhile_sublist _).mem hx)).1
    rw [view?_cons_of_outside t (Or.inr hax)]

end WellFormed

end Table

namespace Memory

variable {m : Memory} {a : UInt64} {n : Nat} {bs : ByteArray}

/-- A byte can be run if it permits it. -/
theorem runs_iff {x : Nat} : m.table.runs x = true ↔ m.Permits (·.execute) x := by
  rw [Table.runs, Option.any_eq_true]
  exact Iff.rfl

/-- An address is mapped if there is a cell. -/
theorem isMapped_eq (h : m.table.WellFormed) (a : UInt64) :
    m.isMapped a = (m.view? a.toNat).isSome := by
  rw [Bool.eq_iff_iff, isMapped, Option.isSome_iff_exists, Option.isSome_iff_exists]
  constructor
  · rintro ⟨x, hx⟩
    obtain ⟨hmem, hlow, hhigh, -⟩ := h.covers_of_find? hx
    obtain ⟨b, hb⟩ := h.exists_view?_of_mem hmem ⟨hlow, hhigh⟩
    exact ⟨_, hb⟩
  · rintro ⟨c, hc⟩
    exact h.exists_find?_of_view? hc

/-- What is fetched are the bytes of a run of executable cells. -/
theorem byteList_fetch (h : m.table.WellFormed) (hbs : m.fetch a n = .ok bs) :
    (byteList bs).map some = (m.table.code a.toNat n).map fun x => (m.view? x).map Prod.fst := by
  rw [fetch] at hbs
  split at hbs
  · split at hbs <;> exact nomatch hbs
  · rw [← Except.ok.inj hbs, h.byteList_runnable]
    rfl

/-- **Code may be executed.** Every byte that is fetched is one that may. -/
theorem permits_fetch (h : m.table.WellFormed) (hbs : m.fetch a n = .ok bs) {x : Nat}
    (hax : a.toNat ≤ x) (hx : x < a.toNat + bs.size) : m.Permits (·.execute) x := by
  have hsize : bs.size = (m.table.code a.toNat n).length := by
    have hlen := congrArg List.length (byteList_fetch h hbs)
    simpa using hlen
  refine runs_iff.mp (Table.runs_of_mem_code (a := a.toNat) (n := n) ?_)
  rw [Table.code_eq_range']
  exact List.mem_range'_1.mpr ⟨hax, by omega⟩

/-- How much is fetched depends on permissions only. -/
theorem code_of_permissions {m' : Memory} (hperm : m'.permissions? = m.permissions?) (a n : Nat) :
    m'.table.code a n = m.table.code a n :=
  Table.code_congr fun x _ _ => by
    rw [Bool.eq_iff_iff, runs_iff, runs_iff, permits_iff, permits_iff, hperm]

/-- Fetches see no cells but those that may be executed. -/
theorem fetch_congr {m' : Memory} (h : m.table.WellFormed) (h' : m'.table.WellFormed)
    (hperm : m'.permissions? = m.permissions?)
    (hview : ∀ x, m.Permits (·.execute) x → m'.view? x = m.view? x) (a : UInt64) (n : Nat) :
    m'.fetch a n = m.fetch a n := by
  have hmapped : m'.isMapped a = m.isMapped a := by
    rw [isMapped_eq h, isMapped_eq h', ← Option.isSome_map (f := Prod.snd),
      ← Option.isSome_map (f := Prod.snd) (x := m.view? _)]
    exact congrArg Option.isSome (congrFun hperm a.toNat)
  have hbytes : (byteList (m'.table.runnable a.toNat n)).map some =
      (byteList (m.table.runnable a.toNat n)).map some := by
    rw [h.byteList_runnable, h'.byteList_runnable, code_of_permissions hperm]
    refine List.map_congr_left fun x hx => congrArg _ (hview x ?_)
    exact runs_iff.mp (Table.runs_of_mem_code hx)
  have hlist : byteList (m'.table.runnable a.toNat n) = byteList (m.table.runnable a.toNat n) :=
    (List.map_inj_right fun _ _ => Option.some.inj).mp hbytes
  simp only [fetch, hmapped, byteList_injective hlist]

/-- **Front parts.** Where permissions are the same as much is fetched, and each front part depends on its
    own cells only. -/
theorem exists_fetch_of_permissions {m' : Memory} (h : m.table.WellFormed)
    (h' : m'.table.WellFormed) (hperm : m'.permissions? = m.permissions?)
    (hbs : m.fetch a n = .ok bs) (hpos : 0 < bs.size) :
    ∃ bs', m'.fetch a n = .ok bs' ∧ ∀ k,
      (∀ x, a.toNat ≤ x → x < a.toNat + k → m'.view? x = m.view? x) →
        (byteList bs').take k = (byteList bs).take k := by
  have hbytes := byteList_fetch h hbs
  have hbytes' := h'.byteList_runnable a.toNat n
  rw [code_of_permissions hperm] at hbytes'
  -- the length of the run depends on the permissions only
  have hsize : (m'.table.runnable a.toNat n).size = bs.size := by
    have hlen := congrArg List.length hbytes
    have hlen' := congrArg List.length hbytes'
    simp only [List.length_map, length_byteList] at hlen hlen'
    omega
  refine ⟨m'.table.runnable a.toNat n, ?_, fun k hk => ?_⟩
  · have hsome : ¬ ((m'.table.runnable a.toNat n).size = 0 && n ≠ 0) = true := by
      simp only [Bool.and_eq_true, decide_eq_true_eq]
      omega
    exact if_neg hsome
  · -- the first `k` addresses of the run lie below `a + k`
    have hcells : ((m.table.code a.toNat n).take k).map (fun x => (m'.view? x).map Prod.fst) =
        ((m.table.code a.toNat n).take k).map fun x => (m.view? x).map Prod.fst := by
      refine List.map_congr_left fun x hx => ?_
      obtain ⟨hax, hxk⟩ := Table.bounds_of_mem_take_code hx
      rw [hk x hax hxk]
    have hmap : ((byteList (m'.table.runnable a.toNat n)).take k).map some =
        ((byteList bs).take k).map some := by
      rw [List.map_take, List.map_take, hbytes, hbytes', ← List.map_take, ← List.map_take]
      exact hcells
    exact (List.map_inj_right fun _ _ => Option.some.inj).mp hmap

end Memory

end Amd64
