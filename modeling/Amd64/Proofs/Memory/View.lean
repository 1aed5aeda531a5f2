import Amd64.Proofs.Memory.WellFormed

namespace Amd64

/-!
# Memory byte by byte

A byte of memory is a cell: its value and the permissions of its segment.  The walks along the segments
of a well-formed table are walks along its cells, one address after the other:

* `Table.view?` — the cell at an address, if the address is mapped;
* `WellFormed.obstacle?_eq` — the first obstacle to an access is that of the first cell with one;
* `WellFormed.byteList_gather` — the bytes that are read are those of the cells;
* `WellFormed.view?_scatter` — writing lays the new bytes over the cells.

Addresses are natural numbers, so that a range may pass the greatest address.
-/

/-- A byte of memory and what may be done with it. -/
abbrev Cell := UInt8 × Permissions

/-- The cell at an address. -/
def Mapping.cell? (m : Mapping) (x : Nat) : Option Cell :=
  if m.start ≤ x ∧ x < m.stop then
    (byteList m.bytes)[x - m.start]?.map (·, m.segment.permissions)
  else none

/-- The cell at an address, if it is mapped. -/
def Table.view? (t : Table) (x : Nat) : Option Cell :=
  t.findSome? fun m => m.cell? x

/-- The cells at `n` addresses from `a` on. -/
def Table.cells (t : Table) (a n : Nat) : List (Option Cell) :=
  (List.range' a n).map t.view?

/-- The obstacle that a cell is to an access that needs permissions with `ok`. -/
def Obstacle.ofCell? (ok : Permissions → Bool) : Option Cell → Option Obstacle
  | none => some .unmapped
  | some c => if ok c.2 then none else some .denied

/-- Cells with the bytes `bs` laid over them from `a` on. Where there is no cell there is none after. -/
def overlay (v : Nat → Option Cell) (a : Nat) (bs : List UInt8) (x : Nat) : Option Cell :=
  if a ≤ x then
    match bs[x - a]? with
    | some b => (v x).map fun c => (b, c.2)
    | none => v x
  else v x

/-! ### Cells of one mapping -/

/-- The items of a list with `ys` put in the place of as many items from position `i` on. -/
theorem getElem?_splice (xs ys : List UInt8) {i : Nat} (h : i + ys.length ≤ xs.length) (k : Nat) :
    (xs.take i ++ ys ++ xs.drop (i + ys.length))[k]? =
      if i ≤ k ∧ k < i + ys.length then ys[k - i]? else xs[k]? := by
  have hfirst : (xs.take i).length = i := by
    rw [List.length_take]
    omega
  by_cases hbefore : k < i
  · rw [if_neg (by omega), List.append_assoc, List.getElem?_append_left (by omega),
      List.getElem?_take_of_lt hbefore]
  by_cases hin : k < i + ys.length
  · rw [if_pos (by omega), List.append_assoc, List.getElem?_append_right (by omega), hfirst,
      List.getElem?_append_left (by omega)]
  · rw [if_neg (by omega), List.getElem?_append_right (by rw [List.length_append]; omega),
      List.length_append, hfirst, List.getElem?_drop]
    congr 1
    omega

/-- Bytes cannot be laid where there are none. -/
theorem overlay_of_none {v : Nat → Option Cell} {x : Nat} (h : v x = none) (a : Nat)
    (bs : List UInt8) : overlay v a bs x = none := by
  unfold overlay
  split
  · split <;> simp [h]
  · exact h

/-- Bytes outside of the range stay. -/
theorem overlay_of_outside {v : Nat → Option Cell} {a x : Nat} {bs : List UInt8}
    (h : x < a ∨ a + bs.length ≤ x) : overlay v a bs x = v x := by
  unfold overlay
  split
  · rw [List.getElem?_eq_none (by omega)]
  · rfl

/-- Bytes inside of the range are replaced and keep their permissions. -/
theorem overlay_of_inside {v : Nat → Option Cell} {a x : Nat} {bs : List UInt8} (ha : a ≤ x)
    (h : x - a < bs.length) : overlay v a bs x = (v x).map fun c => (bs[x - a], c.2) := by
  rw [overlay, if_pos ha, List.getElem?_eq_getElem h]

/-- What is laid does not matter for what is under it. -/
theorem overlay_congr {v w : Nat → Option Cell} {x : Nat} (h : v x = w x) (a : Nat)
    (bs : List UInt8) : overlay v a bs x = overlay w a bs x := by
  simp only [overlay, h]

/-- The bytes behind an address do not count. -/
theorem overlay_take (v : Nat → Option Cell) {a k x : Nat} (h : x < a + k) (bs : List UInt8) :
    overlay v a (bs.take k) x = overlay v a bs x := by
  unfold overlay
  split
  · rw [List.getElem?_take_of_lt (by omega)]
  · rfl

/-- The bytes before an address do not count. -/
theorem overlay_drop (v : Nat → Option Cell) {a k x : Nat} (h : a + k ≤ x) (bs : List UInt8) :
    overlay v (a + k) (bs.drop k) x = overlay v a bs x := by
  rw [overlay, overlay, if_pos h, if_pos (by omega), List.getElem?_drop,
    show k + (x - (a + k)) = x - a by omega]

namespace Mapping

variable {m : Mapping} {x : Nat}

/-- Outside of a mapping there is no byte of it. -/
theorem cell?_eq_none (h : x < m.start ∨ m.stop ≤ x) : m.cell? x = none := by
  rw [cell?, if_neg (by omega)]

/-- The bytes of a mapping with its permissions. -/
theorem cell?_eq_map (h : m.start ≤ x ∧ x < m.stop) :
    m.cell? x = (byteList m.bytes)[x - m.start]?.map (·, m.segment.permissions) :=
  if_pos h

/-- Inside of a mapping there is a byte. -/
theorem Valid.cell?_eq_some (hv : m.Valid) (h : m.start ≤ x ∧ x < m.stop) :
    ∃ b, m.cell? x = some (b, m.segment.permissions) := by
  have hlen : x - m.start < (byteList m.bytes).length := by
    rw [length_byteList, hv.size_bytes]
    omega
  exact ⟨_, by rw [cell?_eq_map h, List.getElem?_eq_getElem hlen, Option.map_some]⟩

/-- Bytes that are replaced inside a mapping lie over its cells. -/
theorem Valid.cell?_overwrite (hv : m.Valid) (data : ByteArray) (a pos n : Nat) (ha : m.start ≤ a)
    (hn : a + n ≤ m.stop) (hpos : pos + n ≤ data.size) (x : Nat) :
    (m.overwrite (a - m.start) data pos n).cell? x =
      overlay m.cell? a (((byteList data).drop pos).take n) x := by
  by_cases hx : m.start ≤ x ∧ x < m.stop
  · have hsize := hv.size_bytes
    have hnew : (((byteList data).drop pos).take n).length = n := by
      rw [List.length_take, List.length_drop, length_byteList]
      omega
    -- counted from the start of the mapping, the new bytes stand in the place of `n` old ones
    have hbytes : (byteList (m.overwrite (a - m.start) data pos n).bytes)[x - m.start]? =
        if a ≤ x ∧ x < a + n then (((byteList data).drop pos).take n)[x - a]?
        else (byteList m.bytes)[x - m.start]? := by
      show (byteList (data.copySlice pos m.bytes (a - m.start) n))[x - m.start]? = _
      rw [byteList_copySlice, Nat.min_eq_left (by omega : n ≤ data.size - pos)]
      have hsplice := getElem?_splice (byteList m.bytes) (((byteList data).drop pos).take n)
        (i := a - m.start) (by rw [hnew, length_byteList]; omega) (x - m.start)
      rw [hnew] at hsplice
      rw [hsplice, show x - m.start - (a - m.start) = x - a by omega]
      have hcond : (a - m.start ≤ x - m.start ∧ x - m.start < a - m.start + n) ↔
          (a ≤ x ∧ x < a + n) := by omega
      simp only [hcond]
    have hcell : (m.overwrite (a - m.start) data pos n).cell? x =
        (byteList (m.overwrite (a - m.start) data pos n).bytes)[x - m.start]?.map
          (·, m.segment.permissions) := cell?_eq_map hx
    rw [hcell, hbytes]
    by_cases hin : a ≤ x ∧ x < a + n
    · obtain ⟨b, hb⟩ := hv.cell?_eq_some hx
      have hlt : x - a < (((byteList data).drop pos).take n).length := by omega
      rw [if_pos hin, overlay_of_inside hin.1 hlt, hb, List.getElem?_eq_getElem hlt]
      rfl
    · rw [if_neg hin, overlay_of_outside (by omega), cell?_eq_map hx]
  · have hout : x < m.start ∨ m.stop ≤ x := by omega
    rw [overlay_of_none (cell?_eq_none hout)]
    exact cell?_eq_none (m := m.overwrite (a - m.start) data pos n) hout

end Mapping

/-! ### Cells of a table -/

namespace Table

variable {t : Table} {m : Mapping} {x : Nat}

/-- A byte is in the first mapping or in the others. -/
theorem view?_cons (m : Mapping) (t : Table) (x : Nat) :
    view? (m :: t) x = (m.cell? x).or (t.view? x) := by
  rw [view?, List.findSome?_cons]
  cases m.cell? x <;> rfl

/-- What is outside of the first mapping is in the others. -/
theorem view?_cons_of_outside (t : Table) (h : x < m.start ∨ m.stop ≤ x) :
    view? (m :: t) x = t.view? x := by
  rw [view?_cons, Mapping.cell?_eq_none h, Option.none_or]

/-- Where a cell is, there is a mapping that covers it. -/
theorem exists_covers_of_view? {c : Cell} (h : t.view? x = some c) : ∃ m ∈ t, m.start ≤ x ∧ x < m.stop := by
  obtain ⟨m, hm, hcell⟩ := List.exists_of_findSome?_eq_some h
  refine ⟨m, hm, Decidable.byContradiction fun hout => ?_⟩
  rw [Mapping.cell?_eq_none (by omega)] at hcell
  cases hcell

/-- Below all segments nothing is mapped. -/
theorem view?_eq_none_of_lt (h : ∀ n ∈ t, x < n.start) : t.view? x = none :=
  List.findSome?_eq_none_iff.mpr fun n hn => Mapping.cell?_eq_none (Or.inl (h n hn))

/-- The bytes of a range depend on the view of this range. -/
theorem cells_congr {u : Table} {a n : Nat} (h : ∀ x, a ≤ x → x < a + n → t.view? x = u.view? x) :
    t.cells a n = u.cells a n :=
  List.map_congr_left fun x hx => by
    obtain ⟨h1, h2⟩ := List.mem_range'_1.mp hx
    exact h x h1 h2

@[simp] theorem cells_zero (t : Table) (a : Nat) : t.cells a 0 = [] := rfl

/-- The bytes of two ranges one behind the other. -/
theorem cells_append (t : Table) (a k n : Nat) :
    t.cells a (k + n) = t.cells a k ++ t.cells (a + k) n := by
  rw [cells, cells, cells, ← List.map_append, List.range'_append_1]

/-- The first byte of a range and those behind it. -/
theorem cells_of_pos (t : Table) (a : Nat) {n : Nat} (h : n ≠ 0) :
    t.cells a n = t.view? a :: t.cells (a + 1) (n - 1) := by
  obtain ⟨n, rfl⟩ := Nat.exists_eq_succ_of_ne_zero h
  rw [cells, cells, List.range'_succ, List.map_cons]
  rfl

/-- Above the first mapping are the bytes of the others. -/
theorem cells_cons_above (t : Table) {a : Nat} (h : m.stop ≤ a) (n : Nat) :
    cells (m :: t) a n = t.cells a n :=
  cells_congr fun _ hx _ => view?_cons_of_outside t (Or.inr (Nat.le_trans h hx))

/-- Permissions may be forgotten. -/
theorem map_fst_map_some (p : Permissions) (bs : List UInt8) :
    (bs.map fun b => (some (b, p) : Option Cell)).map (Option.map Prod.fst) = bs.map some := by
  rw [List.map_map]
  rfl

namespace WellFormed

/-- The mapping that covers an address decides its byte. -/
theorem view?_of_covers (h : t.WellFormed) (hm : m ∈ t) (hx : m.start ≤ x ∧ x < m.stop) :
    t.view? x = m.cell? x := by
  induction t with
  | nil => simp at hm
  | cons y t ih =>
    obtain ⟨_, hyt, ht⟩ := wellFormed_cons.mp h
    rcases List.mem_cons.mp hm with rfl | hm
    · obtain ⟨b, hb⟩ := (h.valid m (by simp)).cell?_eq_some hx
      rw [view?_cons, hb, Option.some_or]
    · have hym := hyt m hm
      rw [view?_cons_of_outside t (Or.inr (by omega)), ih ht hm]

/-- The cells of a mapping have its permissions. -/
theorem exists_view?_of_mem (h : t.WellFormed) (hm : m ∈ t) (hx : m.start ≤ x ∧ x < m.stop) :
    ∃ b, t.view? x = some (b, m.segment.permissions) := by
  obtain ⟨b, hb⟩ := (h.valid m hm).cell?_eq_some hx
  exact ⟨b, (h.view?_of_covers hm hx).trans hb⟩

/-- What a lookup finds covers the address. -/
theorem covers_of_find? (h : t.WellFormed) {a : UInt64} (hfind : t.find? a = some m) :
    m ∈ t ∧ m.start ≤ a.toNat ∧ a.toNat < m.stop ∧ m.bytes.size = m.stop - m.start := by
  obtain ⟨hm, hcovers⟩ := h.find?_eq_some_iff.mp hfind
  obtain ⟨hlow, hhigh⟩ := (Segment.contains_iff _ _).mp hcovers
  exact ⟨hm, hlow, hhigh, (h.valid m hm).size_bytes⟩

/-- A lookup finds something where a cell is. -/
theorem exists_find?_of_view? (h : t.WellFormed) {a : UInt64} {c : Cell} (hc : t.view? a.toNat = some c) :
    ∃ m, t.find? a = some m := by
  obtain ⟨m, hm, hcovers⟩ := exists_covers_of_view? hc
  exact ⟨m, h.find?_eq_some_iff.mpr ⟨hm, (Segment.contains_iff _ _).mpr hcovers⟩⟩

/-- Where no mapping is found there is no byte. -/
theorem view?_of_find?_eq_none (h : t.WellFormed) {a : UInt64} (hfind : t.find? a = none) :
    t.view? a.toNat = none := by
  cases hc : t.view? a.toNat with
  | none => rfl
  | some c =>
    obtain ⟨m, hm⟩ := h.exists_find?_of_view? hc
    exact nomatch hm.symm.trans hfind

/-- Below the first segment nothing is mapped. -/
theorem view?_before (h : WellFormed (m :: t)) (hx : x < m.start) : view? (m :: t) x = none :=
  view?_eq_none_of_lt fun n hn => Nat.lt_of_lt_of_le hx (h.start_le (Nat.le_refl _) n hn)

/-- **One step of a walk.** The cells from an address of the first mapping on are those of its bytes,
    then those from its end on. -/
theorem cells_cons (h : WellFormed (m :: t)) {a : Nat} (ha : m.start ≤ a) (hstop : a < m.stop)
    (n : Nat) :
    cells (m :: t) a n =
      (((byteList m.bytes).drop (a - m.start)).take n).map (fun b => some (b, m.segment.permissions))
        ++ t.cells m.stop (n - (m.stop - a)) := by
  have hsize := (h.valid m (by simp)).size_bytes
  -- up to the end of the first mapping, every cell is one of its bytes
  have hinside : ∀ k, k ≤ m.stop - a → cells (m :: t) a k =
      (((byteList m.bytes).drop (a - m.start)).take k).map
        (fun b => some (b, m.segment.permissions)) := by
    intro k hk
    apply List.ext_getElem
    · simp [cells]
      omega
    · intro i hi _
      have hik : i < k := by simpa [cells] using hi
      have hlen : i + (a - m.start) < (byteList m.bytes).length := by
        rw [length_byteList]
        omega
      simp only [cells, List.getElem_map, List.getElem_range', List.getElem_take, List.getElem_drop]
      rw [h.view?_of_covers (m := m) (by simp) (by omega), Mapping.cell?_eq_map (by omega),
        show a + 1 * i - m.start = a - m.start + i by omega, List.getElem?_eq_getElem (by omega)]
      rfl
  by_cases hn : n ≤ m.stop - a
  · rw [hinside n hn, Nat.sub_eq_zero_of_le hn, cells_zero, List.append_nil]
  · -- behind its end, the cells are those of the other mappings
    have hlen : ((byteList m.bytes).drop (a - m.start)).length = m.stop - a := by
      rw [List.length_drop, length_byteList]
      omega
    have hsplit := cells_append (m :: t) a (m.stop - a) (n - (m.stop - a))
    rw [Nat.add_sub_of_le (by omega), show a + (m.stop - a) = m.stop by omega,
      hinside _ (Nat.le_refl _), cells_cons_above t (Nat.le_refl _)] at hsplit
    rw [hsplit, List.take_of_length_le (by omega), List.take_of_length_le (by omega)]

/-- **Checks.** The obstacle that a walk along the segments meets is that of the first cell with one. -/
theorem obstacle?_eq (h : t.WellFormed) (ok : Permissions → Bool) (a n : Nat) :
    t.obstacle? ok a n = (t.cells a n).findSome? (Obstacle.ofCell? ok) := by
  -- induction along the walk, which leaves one mapping behind in each step
  fun_induction obstacle? ok t a n with
  | case1 | case3 => rfl
  | case2 a n hn => rw [cells_of_pos _ _ hn]; rfl
  | case4 m t a n _ hstop ih =>
    obtain ⟨_, _, ht⟩ := wellFormed_cons.mp h
    rw [ih ht, cells_cons_above t hstop]
  | case5 m t a n hn _ hbefore =>
    rw [cells_of_pos _ _ hn, h.view?_before hbefore]
    rfl
  | case6 m t a n hn hstop hbefore hok =>
    obtain ⟨b, hview⟩ := h.exists_view?_of_mem (m := m) (x := a) (by simp) (by omega)
    have hno : ok m.segment.permissions = false := by simpa using hok
    rw [cells_of_pos _ _ hn, hview]
    simp [Obstacle.ofCell?, hno]
  | case7 m t a n _ hstop hbefore hok ih =>
    obtain ⟨_, _, ht⟩ := wellFormed_cons.mp h
    -- no cell of this mapping is an obstacle, since they share its permissions
    have hyes : ok m.segment.permissions = true := by simpa using hok
    have hinside : ∀ bs : List UInt8,
        (bs.map fun b => some (b, m.segment.permissions)).findSome? (Obstacle.ofCell? ok) = none := by
      intro bs
      rw [List.findSome?_eq_none_iff]
      intro c hc
      obtain ⟨b, _, rfl⟩ := List.mem_map.mp hc
      simp [Obstacle.ofCell?, hyes]
    rw [ih ht, h.cells_cons (by omega) (by omega), List.findSome?_append, hinside, Option.none_or]

/-- **Reads.** The bytes that a walk along mapped segments gathers are those of the cells. -/
theorem byteList_gather (h : t.WellFormed) {a n : Nat} (hmapped : none ∉ t.cells a n) :
    (byteList (t.gather a n)).map some = (t.cells a n).map (Option.map Prod.fst) := by
  fun_induction gather t a n with
  | case1 a n =>
    -- behind the last mapping no bytes are left to read
    have hn : n = 0 := Nat.eq_zero_of_not_pos fun hpos => by
      rw [cells_of_pos _ _ (by omega)] at hmapped
      exact hmapped (by simp [view?])
    subst hn
    rfl
  | case2 => rfl
  | case3 m t a n _ hstop ih =>
    obtain ⟨_, _, ht⟩ := wellFormed_cons.mp h
    rw [cells_cons_above t hstop] at hmapped ⊢
    exact ih ht hmapped
  | case4 m t a n hn _ hbefore =>
    rw [cells_of_pos _ _ hn, h.view?_before hbefore] at hmapped
    exact absurd (List.mem_cons_self ..) hmapped
  | case5 m t a n _ hstop hbefore hfit =>
    rw [h.cells_cons (by omega) (by omega), Nat.sub_eq_zero_of_le hfit, cells_zero, List.append_nil,
      map_fst_map_some, byteList_extract, Nat.add_sub_cancel_left]
  | case6 m t a n _ hstop hbefore hlong ih =>
    obtain ⟨_, _, ht⟩ := wellFormed_cons.mp h
    have hsize := (h.valid m (by simp)).size_bytes
    rw [h.cells_cons (by omega) (by omega)] at hmapped ⊢
    have hrest : none ∉ cells t m.stop (n - (m.stop - a)) := fun hin =>
      hmapped (List.mem_append.mpr (Or.inr hin))
    have hlen : ((byteList m.bytes).drop (a - m.start)).length = m.stop - a := by
      rw [List.length_drop, length_byteList]
      omega
    rw [byteList_append, List.map_append, List.map_append, ih ht hrest, map_fst_map_some,
      byteList_extract, List.take_of_length_le (by omega), List.take_of_length_le (by omega)]

/-- Below the end of the first segment only this one counts. -/
theorem view?_first (h : WellFormed (m :: t)) (hx : x < m.stop) : view? (m :: t) x = m.cell? x := by
  obtain ⟨_, hmt, _⟩ := wellFormed_cons.mp h
  rw [view?_cons, view?_eq_none_of_lt fun n hn => Nat.lt_of_lt_of_le hx (hmt n hn), Option.or_none]

/-- **Writes.** A walk along mapped segments lays the bytes over the cells. -/
theorem view?_scatter (h : t.WellFormed) {data : ByteArray} {a pos : Nat}
    (hmapped : none ∉ t.cells a (data.size - pos)) (x : Nat) :
    (t.scatter data a pos).view? x = overlay t.view? a ((byteList data).drop pos) x := by
  have hlen : ((byteList data).drop pos).length = data.size - pos := by
    rw [List.length_drop, length_byteList]
  fun_induction Table.scatter data t a pos with
  | case1 => rw [overlay_of_none rfl]; rfl
  | case2 m t a pos hdone => rw [overlay_of_outside (by omega)]
  | case3 m t a pos _ hstop ih =>
    obtain ⟨_, _, ht⟩ := wellFormed_cons.mp h
    rw [cells_cons_above t hstop] at hmapped
    have hrest := ih ht hmapped hlen
    -- nothing is written to the first mapping, which ends at or below `a`
    by_cases hx : x < m.stop
    · rw [overlay_of_outside (Or.inl (by omega))] at hrest ⊢
      rw [view?_cons, view?_cons, hrest]
    · have hout : x < m.start ∨ m.stop ≤ x := Or.inr (by omega)
      rw [view?_cons_of_outside _ hout, hrest, overlay_congr (view?_cons_of_outside t hout)]
  | case4 m t a pos hmore _ hbefore =>
    rw [cells_of_pos _ _ (by omega), h.view?_before hbefore] at hmapped
    exact absurd (List.mem_cons_self ..) hmapped
  | case5 m t a pos hmore hstop hbefore off room hfit =>
    obtain ⟨hm, hmt, ht⟩ := wellFormed_cons.mp h
    have hcell := hm.cell?_overwrite data a pos (data.size - pos) (by omega) (by omega) (by omega) x
    have hwf : WellFormed (m.overwrite off data pos (data.size - pos) :: t) :=
      wellFormed_cons.mpr ⟨hm.overwrite (by omega) (by omega), hmt, ht⟩
    by_cases hx : x < m.stop
    · rw [hwf.view?_first hx, hcell, overlay_congr (h.view?_first hx).symm,
        List.take_of_length_le (by omega)]
    · have hout : x < m.start ∨ m.stop ≤ x := Or.inr (Nat.not_lt.mp hx)
      rw [overlay_of_outside (by omega), view?_cons_of_outside t hout,
        view?_cons_of_outside t (m := m.overwrite off data pos (data.size - pos)) hout]
  | case6 m t a pos hmore hstop hbefore off room hlong next ih =>
    obtain ⟨hm, hmt, ht⟩ := wellFormed_cons.mp h
    have hcell := hm.cell?_overwrite data a pos room (by omega) (by omega) (by omega) x
    have hwf : WellFormed (m.overwrite off data pos room :: Table.scatter data t next (pos + room)) :=
      wellFormed_cons.mpr ⟨hm.overwrite (by omega) (by omega), le_start_scatter hmt, ht.scatter ..⟩
    have hrest : none ∉ cells t next (data.size - (pos + room)) := by
      rw [h.cells_cons (by omega) (by omega), List.mem_append] at hmapped
      rw [Nat.sub_add_eq]
      exact fun hin => hmapped (Or.inr hin)
    by_cases hx : x < m.stop
    · -- the first `room` bytes go to this mapping
      rw [hwf.view?_first hx, hcell, overlay_take _ (by omega), overlay_congr (h.view?_first hx).symm]
    · -- the others go to what lies behind it, from its end on
      have hout : x < m.start ∨ m.stop ≤ x := Or.inr (Nat.not_lt.mp hx)
      have hnext : next = a + room := by omega
      rw [view?_cons_of_outside _ (m := m.overwrite off data pos room) hout,
        ih ht hrest (by rw [List.length_drop, length_byteList]), ← List.drop_drop, hnext,
        overlay_drop _ (by omega), overlay_congr (view?_cons_of_outside t hout).symm]

end WellFormed

end Table

end Amd64
