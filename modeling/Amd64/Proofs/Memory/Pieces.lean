import Amd64.Proofs.Memory.Access

namespace Amd64

/-!
# Accesses in parts

A run of bytes may be transferred in parts, one behind the other.  What a successful write leaves is
determined by its cells, so this is a matter of laying bytes over cells.

* `overlay_take_drop`, `overlay_append` — bytes laid over cells at once, and in two parts;
* `Memory.ext_view`        — a memory is its window, its segments and its cells;
* `Memory.store_eq_ok_iff` — hence a successful write is what it does to the cells;
* `Memory.load_append`, `Memory.store_append` — reads and writes that succeed, in two parts.
-/

/-! ### Bytes laid over cells -/

/-- No bytes leave the cells. -/
theorem overlay_nil (v : Nat → Option Cell) (a : Nat) : overlay v a [] = v :=
  funext fun x => overlay_of_outside (Nat.lt_or_ge x a)

/-- A run of bytes lies over the cells like its first `k` bytes with the rest behind them. -/
theorem overlay_take_drop (v : Nat → Option Cell) (a k : Nat) (bs : List UInt8) :
    overlay (overlay v a (bs.take k)) (a + k) (bs.drop k) = overlay v a bs := by
  funext x
  by_cases hx : x < a + k
  · rw [overlay_of_outside (Or.inl hx), overlay_take v hx]
  · have hlength : (bs.take k).length ≤ k := List.length_take_le k bs
    have hkept : overlay v a (bs.take k) x = v x := overlay_of_outside (Or.inr (by omega))
    rw [overlay_congr hkept, overlay_drop v (Nat.not_lt.mp hx)]

/-- Two strings one behind the other are laid at once. -/
theorem overlay_append (v : Nat → Option Cell) (a : Nat) (xs ys : List UInt8) :
    overlay v a (xs ++ ys) = overlay (overlay v a xs) (a + xs.length) ys := by
  rw [← overlay_take_drop v a xs.length (xs ++ ys), List.take_left, List.drop_left]

/-- Permissions are not laid over. -/
theorem map_snd_overlay (v : Nat → Option Cell) (a : Nat) (bs : List UInt8) (x : Nat) :
    (overlay v a bs x).map Prod.snd = (v x).map Prod.snd := by
  unfold overlay
  split
  · split
    · rw [Option.map_map]
      rfl
    · rfl
  · rfl

/-! ### Memories are made of cells -/

/-- The cells of a mapping are its bytes. -/
theorem Mapping.cell?_add {m : Mapping} {i : Nat} (hi : i < m.stop - m.start) :
    m.cell? (m.start + i) = (byteList m.bytes)[i]?.map (·, m.segment.permissions) := by
  rw [cell?_eq_map ⟨Nat.le_add_right _ _, by omega⟩, Nat.add_sub_cancel_left]

/-- A mapping is its segment and its cells. -/
theorem Mapping.Valid.ext {m n : Mapping} (hm : m.Valid) (hn : n.Valid)
    (hsegment : n.segment = m.segment)
    (hcell : ∀ x, m.start ≤ x → x < m.stop → n.cell? x = m.cell? x) : n = m := by
  have hstart : n.start = m.start := congrArg (fun s => s.start.toNat) hsegment
  have hstop : n.stop = m.stop := congrArg (fun s => s.stop.toNat) hsegment
  have hsize : (byteList m.bytes).length = m.stop - m.start := hm.size_bytes
  have hsize' : (byteList n.bytes).length = n.stop - n.start := hn.size_bytes
  have hbytes : byteList n.bytes = byteList m.bytes := by
    apply List.ext_getElem?
    intro i
    by_cases hi : i < m.stop - m.start
    · -- the byte is that of a cell, and cells with the same permissions differ in their bytes only
      have hsame := hcell (m.start + i) (Nat.le_add_right _ _) (by omega)
      have hi' : i < n.stop - n.start := by omega
      rw [cell?_add hi, ← hstart, cell?_add hi', hsegment] at hsame
      exact Option.map_injective (fun _ _ hpair => (Prod.mk.inj hpair).1) hsame
    · rw [List.getElem?_eq_none (by omega), List.getElem?_eq_none (by omega)]
  calc n = ⟨n.segment, n.bytes⟩ := rfl
    _ = ⟨m.segment, m.bytes⟩ := by rw [hsegment, byteList_injective hbytes]
    _ = m := rfl

/-- A table is its segments and its cells. -/
theorem Table.WellFormed.ext {t u : Table} (ht : t.WellFormed) (hu : u.WellFormed)
    (hsegments : u.map Mapping.segment = t.map Mapping.segment) (hview : u.view? = t.view?) :
    u = t := by
  induction t generalizing u with
  | nil => exact List.map_eq_nil_iff.mp hsegments
  | cons m t ih =>
    obtain ⟨n, u, rfl, hnm, hrest⟩ := List.map_eq_cons_iff.mp hsegments
    obtain ⟨hm, hmt, htail⟩ := wellFormed_cons.mp ht
    obtain ⟨hn, hnu, hutail⟩ := wellFormed_cons.mp hu
    have hstop : n.stop = m.stop := congrArg (fun s => s.stop.toNat) hnm
    -- the segments agree already, so the first mappings differ in their bytes at most
    have hfirst : n = m := hm.ext hn hnm fun x _ hx => by
      rw [← hu.view?_first (hstop ▸ hx), ← ht.view?_first hx, hview]
    subst hfirst
    have hothers : view? u = view? t := by
      funext x
      by_cases hx : x < n.stop
      · -- all other segments lie behind
        rw [view?_eq_none_of_lt fun k hk => Nat.lt_of_lt_of_le hx (hnu k hk),
          view?_eq_none_of_lt fun k hk => Nat.lt_of_lt_of_le hx (hmt k hk)]
      · have hsame := congrFun hview x
        rwa [view?_cons_of_outside _ (Or.inr (Nat.not_lt.mp hx)),
          view?_cons_of_outside _ (Or.inr (Nat.not_lt.mp hx))] at hsame
    rw [ih htail hutail hrest hothers]

namespace Memory

variable {m m' : Memory} {enforce : Bool} {a : UInt64}

/-- **Memories.** They are what their cells say, in the window and the segments that they have. -/
theorem ext_view (h : m.table.WellFormed) (h' : m'.table.WellFormed) (hwindow : m'.window = m.window)
    (hsegments : m'.segments = m.segments) (hview : m'.view? = m.view?) : m' = m := by
  obtain ⟨window, table⟩ := m
  obtain ⟨window', table'⟩ := m'
  obtain rfl : window' = window := hwindow
  obtain rfl : table' = table := h.ext h' hsegments hview
  rfl

/-- Laying bytes over cells keeps what is permitted. -/
theorem permits_of_overlay {n : Nat} {bs : List UInt8} (hview : m'.view? = overlay m.view? n bs)
    (ok : Permissions → Bool) (x : Nat) : m'.Permits ok x ↔ m.Permits ok x := by
  have hpermissions : m'.permissions? x = m.permissions? x := by
    rw [permissions?, hview, map_snd_overlay]
    rfl
  rw [permits_iff, permits_iff, hpermissions]

/-- **Writes that succeed.** They lay bytes over cells that permit it, and there is only one memory with
    these cells. -/
theorem store_eq_ok_iff (h : m.table.WellFormed) {data : ByteArray} :
    outcome (store enforce a data) m = (.ok (), m') ↔
      (∀ x, a.toNat ≤ x → x < a.toNat + data.size →
        m.Permits (fun p => !enforce || p.allows .write) x) ∧
      m'.table.WellFormed ∧ m'.window = m.window ∧ m'.segments = m.segments ∧
        m'.view? = overlay m.view? a.toNat (byteList data) := by
  have hspec := writesCells_store h enforce a data
  have hwf := wellFormed_store h enforce a data
  constructor
  · intro hstore
    have hok := congrArg Prod.fst hstore
    have hleft : (outcome (store enforce a data) m).2 = m' := congrArg Prod.snd hstore
    refine ⟨hspec.isOk_iff.mp hok, hleft ▸ hwf, hleft ▸ hspec.segments.2, hleft ▸ hspec.segments.1, ?_⟩
    exact hleft ▸ view?_store h hok
  · rintro ⟨hpermits, hwf', hwindow, hsegments, hview⟩
    have hok := hspec.isOk_iff.mpr hpermits
    have hleft : m' = (outcome (store enforce a data) m).2 :=
      ext_view hwf hwf' (hwindow.trans hspec.segments.2.symm) (hsegments.trans hspec.segments.1.symm)
        (hview.trans (view?_store h hok).symm)
    rw [hleft, ← hok]

/-- What a program may write, everyone may write. -/
theorem store_of_enforced (h : m.table.WellFormed) {data : ByteArray}
    (hstore : outcome (store true a data) m = (.ok (), m')) :
    outcome (store false a data) m = (.ok (), m') := by
  obtain ⟨hpermits, hleft⟩ := (store_eq_ok_iff h).mp hstore
  refine (store_eq_ok_iff h).mpr ⟨fun x hax hx => ?_, hleft⟩
  obtain ⟨c, hc, -⟩ := hpermits x hax hx
  exact ⟨c, hc, rfl⟩

/-- What a program may read, everyone may read. -/
theorem load_of_enforced (h : m.table.WellFormed) {n : Nat} {bs : ByteArray}
    (hload : m.load true a n = .ok bs) : m.load false a n = .ok bs := by
  have hpermits := (readsCells_load h true a n).isOk_iff.mp ⟨bs, hload⟩
  have hnone : m.accessError? .read true a n = none := (accessError?_eq_none_iff h).mpr hpermits
  have hnone' : m.accessError? .read false a n = none :=
    (accessError?_eq_none_iff h).mpr fun x hax hx => by
      obtain ⟨c, hc, -⟩ := hpermits x hax hx
      exact ⟨c, hc, rfl⟩
  rw [load, hnone] at hload
  rw [load, hnone']
  exact hload

/-- Below the greatest address, addresses do not wrap around. -/
theorem toNat_add_ofNat {k : Nat} (hlt : a.toNat + k < UInt64.size) :
    (a + UInt64.ofNat k).toNat = a.toNat + k := by
  rw [UInt64.toNat_add, UInt64.toNat_ofNat', Nat.add_mod_mod]
  exact Nat.mod_eq_of_lt hlt

/-- Inside of a range that may be used, addresses do not wrap around. -/
theorem toNat_add_of_permits {ok : Permissions → Bool} {k n : Nat} (hn : n ≠ 0)
    (h : ∀ x, a.toNat ≤ x → x < a.toNat + (k + n) → m.Permits ok x) :
    (a + UInt64.ofNat k).toNat = a.toNat + k := by
  have hlt : a.toNat + k < UInt64.size := by
    by_contra hbeyond
    obtain ⟨c, hc, -⟩ := h (a.toNat + k) (Nat.le_add_right _ _) (by omega)
    rw [view?_eq_none_of_size_le m (Nat.not_lt.mp hbeyond)] at hc
    cases hc
  exact toNat_add_ofNat hlt

/-- Behind a byte that may be used there is another address. -/
theorem toNat_add_of_last {ok : Permissions → Bool} {k : Nat} (hlast : m.Permits ok (a.toNat + k)) :
    (a + UInt64.ofNat (k + 1)).toNat = a.toNat + (k + 1) := by
  obtain ⟨c, hc, -⟩ := hlast
  refine toNat_add_ofNat (Nat.lt_of_not_le fun hbeyond => ?_)
  have hnone : m.view? (a.toNat + k) = none := m.view?_eq_none_of_last hbeyond
  rw [hnone] at hc
  cases hc

/-- A read that succeeds yields as many bytes as were asked for. -/
theorem length_of_load (h : m.table.WellFormed) {n : Nat} {bs : ByteArray}
    (hload : m.load enforce a n = .ok bs) : (byteList bs).length = n := by
  have hbytes := congrArg List.length ((readsCells_load h enforce a n).bytes bs hload)
  simpa using hbytes

/-- **Reads in parts.** -/
theorem load_append (h : m.table.WellFormed) {k n : Nat} {bs : ByteArray}
    (hload : m.load enforce a (k + n) = .ok bs) :
    ∃ xs ys, byteList bs = byteList xs ++ byteList ys ∧ xs.size = k ∧
      m.load enforce a k = .ok xs ∧ m.load enforce (a + UInt64.ofNat k) n = .ok ys := by
  have hwhole := readsCells_load h enforce a (k + n)
  have hfront := readsCells_load h enforce a k
  have hrest := readsCells_load h enforce (a + UInt64.ofNat k) n
  have hpermits := hwhole.isOk_iff.mp ⟨bs, hload⟩
  -- where there is a rest, it begins behind the front part
  have hrange : List.range' (a + UInt64.ofNat k).toNat n = List.range' (a.toNat + k) n := by
    by_cases hn : n = 0
    · rw [hn]
      rfl
    · rw [toNat_add_of_permits hn hpermits]
  obtain ⟨xs, hxs⟩ := hfront.isOk_iff.mpr fun x hax hx => hpermits x hax (by omega)
  obtain ⟨ys, hys⟩ := hrest.isOk_iff.mpr fun x hax hx => by
    have hin : x ∈ List.range' (a.toNat + k) n := by
      rw [← hrange]
      exact List.mem_range'_1.mpr ⟨hax, hx⟩
    obtain ⟨hlow, hhigh⟩ := List.mem_range'_1.mp hin
    exact hpermits x (by omega) (by omega)
  have hxsbytes := hfront.bytes xs hxs
  have hysbytes := hrest.bytes ys hys
  refine ⟨xs, ys, ?_, length_of_load h hxs, hxs, hys⟩
  refine (List.map_inj_right fun _ _ => Option.some.inj).mp ?_
  rw [List.map_append, hwhole.bytes bs hload, hxsbytes, hysbytes, hrange, ← List.map_append,
    List.range'_append_1]

/-- **Writes in parts.** -/
theorem store_append (h : m.table.WellFormed) {xs ys : List UInt8}
    (hstore : outcome (store enforce a (packed (xs ++ ys))) m = (.ok (), m')) :
    ∃ m₁, outcome (store enforce a (packed xs)) m = (.ok (), m₁) ∧
      outcome (store enforce (a + UInt64.ofNat xs.length) (packed ys)) m₁ = (.ok (), m') := by
  have hsize : ∀ zs : List UInt8, (packed zs).size = zs.length := fun zs => by
    rw [← length_byteList, byteList_packed]
  obtain ⟨hpermits, hwf', hwindow, hsegments, hview⟩ := (store_eq_ok_iff h).mp hstore
  rw [hsize, List.length_append] at hpermits
  have hfront := (writesCells_store h enforce a (packed xs)).isOk_iff.mpr fun x hax hx =>
    hpermits x hax (by rw [hsize] at hx; omega)
  obtain ⟨m₁, hm₁⟩ : ∃ m₁, outcome (store enforce a (packed xs)) m = (.ok (), m₁) :=
    ⟨_, Prod.ext hfront rfl⟩
  obtain ⟨-, hwf₁, hwindow₁, hsegments₁, hview₁⟩ := (store_eq_ok_iff h).mp hm₁
  refine ⟨m₁, hm₁, (store_eq_ok_iff hwf₁).mpr ⟨fun x hax hx => ?_, hwf', hwindow.trans hwindow₁.symm,
    hsegments.trans hsegments₁.symm, ?_⟩⟩
  -- with no second half its address is not tied to the first one
  all_goals by_cases hys : ys = []
  · -- of no bytes there is nothing to permit
    rw [hys, hsize, List.length_nil] at hx
    omega
  · have hposition := toNat_add_of_permits (mt List.eq_nil_of_length_eq_zero hys) hpermits
    rw [hsize] at hx
    exact (permits_of_overlay hview₁ _ x).mpr (hpermits x (by omega) (by omega))
  · subst hys
    rw [hview, hview₁, List.append_nil]
    exact (overlay_nil _ _).symm
  · have hposition := toNat_add_of_permits (mt List.eq_nil_of_length_eq_zero hys) hpermits
    rw [hview, hview₁, hposition]
    simp only [byteList_packed]
    exact overlay_append _ _ _ _

end Memory

end Amd64
