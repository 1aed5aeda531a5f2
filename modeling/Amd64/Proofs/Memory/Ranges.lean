import Amd64.Proofs.Memory.Scan

namespace Amd64

/-!
# Ranges of memory

Reads and writes said by ranges of addresses instead of single ones.

* `Memory.AllPermit`, `Memory.HoldsBytes` — a range may be used, and the bytes that it holds;
* `Memory.Overlaid`, `Memory.ChangedWithin` — what a write to a range leaves;
* `Memory.store_cases`, `Memory.load_cases` — writes and reads use the whole range, or they fail;
* `Memory.writeWord_of_allPermit`, `Memory.readWord_of_holdsBytes` — numbers whose bytes may be used.
-/

namespace Memory

/-! ### Ranges that may be used -/

/-- All of the `n` addresses from `a` on permit the access. -/
def AllPermit (m : Memory) (access : Access) (a n : Nat) : Prop :=
  ∀ x, a ≤ x → x < a + n → m.Permits (·.allows access) x

/-- The `n` bytes from `a` on may be read, and they are `bs`. -/
def HoldsBytes (m : Memory) (a n : Nat) (bs : List UInt8) : Prop :=
  bs.map some = (List.range' a n).map m.byte?

/-- The bytes `bs` are laid over those from `a` on, and nothing else is different. -/
structure Overlaid (m m' : Memory) (a : Nat) (bs : List UInt8) : Prop where
  window : m'.window = m.window
  segments : m'.segments = m.segments
  view : m'.view? = overlay m.view? a bs

/-- Nothing is different but bytes at the `n` addresses from `a` on. -/
structure ChangedWithin (m m' : Memory) (a n : Nat) : Prop where
  window : m'.window = m.window
  segments : m'.segments = m.segments
  permissions : m'.permissions? = m.permissions?
  outside : ∀ x, x < a ∨ a + n ≤ x → m'.view? x = m.view? x

variable {m m₁ m' : Memory} {access : Access} {a k n : Nat} {xs ys : List UInt8}

/-- An empty range permits everything. -/
theorem allPermit_zero (m : Memory) (access : Access) (a : Nat) : m.AllPermit access a 0 :=
  fun _ hax hx => absurd hax (Nat.not_le.mpr hx)

/-- A range may be used if its front and the rest may. -/
theorem allPermit_iff_parts (hk : k ≤ n) :
    m.AllPermit access a n ↔ m.AllPermit access a k ∧ m.AllPermit access (a + k) (n - k) := by
  constructor
  · intro h
    exact ⟨fun x hax hx => h x hax (by omega), fun x hax hx => h x (by omega) (by omega)⟩
  · rintro ⟨hfront, hrest⟩ x hax hx
    by_cases hxk : x < a + k
    · exact hfront x hax hxk
    · exact hrest x (Nat.not_lt.mp hxk) (by omega)

/-- Behind a range that may be used there is another address. -/
theorem AllPermit.toNat_add {a : UInt64} (h : m.AllPermit access a.toNat k) (hk : 0 < k) :
    (a + UInt64.ofNat k).toNat = a.toNat + k := by
  obtain ⟨j, rfl⟩ := Nat.exists_eq_add_of_lt hk
  rw [Nat.zero_add] at h ⊢
  exact toNat_add_of_last (h _ (Nat.le_add_right _ _) (by omega))

/-- A range holds as many bytes as it has. -/
theorem HoldsBytes.length (h : m.HoldsBytes a n xs) : xs.length = n := by
  have hlength := congrArg List.length h
  simpa using hlength

/-- The bytes of a front and those of the rest. -/
theorem HoldsBytes.append (h : m.HoldsBytes a k xs) (h' : m.HoldsBytes (a + k) (n - k) ys) (hk : k ≤ n) :
    m.HoldsBytes a n (xs ++ ys) := by
  rw [HoldsBytes, List.map_append, h, h', ← List.map_append, List.range'_append_1, Nat.add_sub_of_le hk]

/-- The front of bytes and the rest. -/
theorem holdsBytes_append_iff : m.HoldsBytes a (xs.length + n) (xs ++ ys) ↔
    m.HoldsBytes a xs.length xs ∧ m.HoldsBytes (a + xs.length) n ys := by
  rw [HoldsBytes, ← List.range'_append_1, List.map_append, List.map_append]
  constructor
  · intro h
    exact List.append_inj h (by simp)
  · rintro ⟨hfront, hrest⟩
    rw [hfront, hrest]

/-- What a range holds depends on the bytes there only. -/
theorem HoldsBytes.congr (h : m.HoldsBytes a n xs) (hsame : ∀ x, a ≤ x → x < a + n → m'.byte? x = m.byte? x) :
    m'.HoldsBytes a n xs := by
  refine Eq.trans h (List.map_congr_left fun x hx => ?_)
  obtain ⟨hax, hx⟩ := List.mem_range'_1.mp hx
  exact (hsame x hax hx).symm

/-- Bytes that are there may be read. -/
theorem HoldsBytes.allPermit (h : m.HoldsBytes a n xs) : m.AllPermit .read a n := by
  intro x hax hx
  have hmem : m.byte? x ∈ xs.map some := by
    rw [h]
    exact List.mem_map_of_mem (List.mem_range'_1.mpr ⟨hax, hx⟩)
  obtain ⟨b, -, hb⟩ := List.mem_map.mp hmem
  exact permits_of_byte? hb.symm

/-! ### Writes to ranges -/

theorem overlaid_nil (m : Memory) (a : Nat) : m.Overlaid m a [] :=
  ⟨rfl, rfl, (overlay_nil _ _).symm⟩

/-- Bytes laid behind others. -/
theorem Overlaid.append (h : m.Overlaid m₁ a xs) (h' : m₁.Overlaid m' (a + xs.length) ys) :
    m.Overlaid m' a (xs ++ ys) :=
  ⟨h'.window.trans h.window, h'.segments.trans h.segments, by rw [h'.view, h.view, overlay_append]⟩

/-- Bytes are laid without a change of permissions. -/
theorem Overlaid.permissions (h : m.Overlaid m' a xs) : m'.permissions? = m.permissions? := by
  funext x
  rw [permissions?, h.view, map_snd_overlay]
  rfl

/-- Bytes outside stay. -/
theorem Overlaid.outside (h : m.Overlaid m' a xs) {x : Nat} (hx : x < a ∨ a + xs.length ≤ x) :
    m'.view? x = m.view? x := by
  rw [h.view, overlay_of_outside hx]

/-- What was permitted is permitted. -/
theorem Overlaid.allPermit_iff (h : m.Overlaid m' a xs) {b : Nat} :
    m'.AllPermit access b n ↔ m.AllPermit access b n :=
  forall_congr' fun x => by rw [permits_of_overlay h.view]

/-- Bytes are still there if nothing is laid over them. -/
theorem Overlaid.holdsBytes (h : m.Overlaid m' a xs) {b : Nat} (h' : m'.HoldsBytes b n ys)
    (houtside : ∀ x, b ≤ x → x < b + n → x < a ∨ a + xs.length ≤ x) : m.HoldsBytes b n ys := by
  refine h'.congr fun x hbx hx => ?_
  rw [byte?, byte?, h.outside (houtside x hbx hx)]

theorem changedWithin_refl (m : Memory) (a n : Nat) : m.ChangedWithin m a n :=
  ⟨rfl, rfl, rfl, fun _ _ => rfl⟩

/-- A change to the front of a range, and one to the rest. -/
theorem Overlaid.then (h : m.Overlaid m₁ a xs) (hn : xs.length ≤ n)
    (h' : m₁.ChangedWithin m' (a + xs.length) (n - xs.length)) : m.ChangedWithin m' a n := by
  refine ⟨h'.window.trans h.window, h'.segments.trans h.segments, h'.permissions.trans h.permissions, ?_⟩
  intro x hx
  rw [h'.outside x (by omega), h.outside (by omega)]

/-- Bytes laid in front of others. -/
theorem Overlaid.prepend (h : m.Overlaid m₁ (a + xs.length) ys) (h' : m₁.Overlaid m' a xs) :
    m.Overlaid m' a (xs ++ ys) := by
  refine ⟨h'.window.trans h.window, h'.segments.trans h.segments, ?_⟩
  -- no address is in both ranges, so the order of the writes does not matter
  funext x
  rw [h'.view, h.view, overlay_append]
  by_cases hx : x < a + xs.length
  · rw [overlay_of_outside (Or.inl hx), overlay_congr (overlay_of_outside (Or.inl hx))]
  · rw [overlay_of_outside (Or.inr (Nat.not_lt.mp hx)),
      overlay_congr (overlay_of_outside (Or.inr (Nat.not_lt.mp hx)))]

/-- Bytes that may be read are found where they were laid. -/
theorem Overlaid.holdsBytes_self (h : m.Overlaid m' a xs) (hread : m.AllPermit .read a xs.length) :
    m'.HoldsBytes a xs.length xs := by
  apply List.ext_getElem
  · rw [List.length_map, List.length_map, List.length_range']
  · intro k hk _
    rw [List.length_map] at hk
    obtain ⟨⟨b, p⟩, hview, hp⟩ := hread (a + k) (Nat.le_add_right a k) (by omega)
    have hinside : m'.view? (a + k) = some (xs[k], p) := by
      rw [h.view, overlay_of_inside (Nat.le_add_right a k) (by omega), hview]
      simp only [Option.map_some, Nat.add_sub_cancel_left]
    rw [List.getElem_map, List.getElem_map, List.getElem_range', Nat.one_mul]
    exact (byte?_eq_some_iff.mpr ⟨p, hinside, hp⟩).symm

/-- **Writes.** A write lays its bytes over a range that may be written, or it fails. -/
theorem store_cases (h : m.table.WellFormed) (a : UInt64) (data : ByteArray) (hdata : byteList data = xs) :
    (∃ m', outcome (store true a data) m = (.ok (), m') ∧ m'.table.WellFormed ∧
        m.AllPermit .write a.toNat xs.length ∧ m.Overlaid m' a.toNat xs) ∨
      ∃ e, outcome (store true a data) m = (.error e, m) ∧ ¬ m.AllPermit .write a.toNat xs.length := by
  subst hdata
  have hspec := writesCells_store h true a data
  obtain ⟨result, m', hr⟩ : ∃ result m', outcome (store true a data) m = (result, m') := ⟨_, _, rfl⟩
  rw [hr] at hspec
  cases result with
  | ok u =>
    obtain ⟨hpermits, hwf, hwindow, hsegments, hview⟩ := (store_eq_ok_iff h).mp hr
    exact Or.inl ⟨m', hr, hwf, hpermits, hwindow, hsegments, hview⟩
  | error e =>
    obtain rfl : m' = m := hspec.unchanged e rfl
    refine Or.inr ⟨e, hr, fun hpermits => ?_⟩
    cases hspec.isOk_iff.mpr hpermits

/-- **Reads.** A read yields the bytes of a range that may be read, or it fails. -/
theorem load_cases (h : m.table.WellFormed) (a : UInt64) (n : Nat) :
    (∃ data, m.load true a n = .ok data ∧ m.AllPermit .read a.toNat n ∧
        m.HoldsBytes a.toNat n (byteList data)) ∨
      ∃ e, m.load true a n = .error e ∧ ¬ m.AllPermit .read a.toNat n := by
  have hcells := readsCells_load h true a n
  cases hload : m.load true a n with
  | ok data =>
    have hpermits : m.AllPermit .read a.toNat n := hcells.isOk_iff.mp ⟨data, hload⟩
    refine Or.inl ⟨data, rfl, hpermits, (hcells.bytes data hload).trans (List.map_congr_left fun x hx => ?_)⟩
    obtain ⟨hax, hx⟩ := List.mem_range'_1.mp hx
    obtain ⟨⟨b, p⟩, hview, hp⟩ := hpermits x hax hx
    rw [hview, byte?_eq_some_iff.mpr ⟨p, hview, hp⟩]
    rfl
  | error e =>
    refine Or.inr ⟨e, rfl, fun hpermits => ?_⟩
    obtain ⟨data, hdata⟩ := hcells.isOk_iff.mpr hpermits
    cases hload.symm.trans hdata

/-! ### Numbers -/

/-- A number may be written where its bytes may. -/
theorem writeWord_of_allPermit (h : m.table.WellFormed) {w : Width} {a : UInt64}
    (hpermits : m.AllPermit .write a.toNat w.bytes) (v : UInt64) :
    ∃ m', outcome (writeWord w a v) m = (.ok (), m') ∧ m'.table.WellFormed ∧
      m.Overlaid m' a.toNat (LittleEndian.bytes w.bytes v.toNat) := by
  obtain ⟨m', hwrite, hwf, -, hlaid⟩ | ⟨e, -, hno⟩ :=
    store_cases h a _ (byteList_packed (LittleEndian.bytes w.bytes v.toNat))
  · exact ⟨m', hwrite, hwf, hlaid⟩
  · rw [LittleEndian.length_bytes] at hno
    exact absurd hpermits hno

/-- The bytes of a number are read as the number. -/
theorem readWord_of_holdsBytes (h : m.table.WellFormed) {w : Width} {a v : UInt64}
    (hbytes : m.HoldsBytes a.toNat w.bytes (LittleEndian.bytes w.bytes v.toNat)) :
    m.readWord w a = .ok (w.truncate v) := by
  obtain ⟨data, hload, -, hdata⟩ | ⟨e, -, hno⟩ := load_cases h a w.bytes
  · have hsame : byteList data = LittleEndian.bytes w.bytes v.toNat :=
      (List.map_inj_right fun _ _ => Option.some.inj).mp (hdata.trans hbytes.symm)
    refine ((readsNumber_readWord h w a).ok_iff _).mpr ⟨data, hload, ?_⟩
    rw [littleEndian, hsame, Width.value_bytes, Width.toNat_truncate]
  · exact absurd hbytes.allPermit hno

end Memory

end Amd64
