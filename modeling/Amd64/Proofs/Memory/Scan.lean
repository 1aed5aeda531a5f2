import Amd64.Proofs.Memory.Pieces

namespace Amd64

/-!
# Looking for a byte

A scan reads one byte after the other until it finds one that it looks for or meets one that it may not read.

* `Memory.byte?`       — the byte at an address, if it may be read;
* `Memory.ScanFinds`, `Memory.ScanBreaks` — the first byte that is looked for may be reached, or a byte before it
  may not be read;
* `Memory.scan_cases`  — one of the two holds, since the last address of all is never mapped;
* `Memory.stored`, `Memory.Storable` — the bytes that all segments hold, which a host has to store;
* `Table.le_sizes_of_mapped` — so many addresses at most are mapped.
-/

namespace Memory

variable {m : Memory} {stop : UInt8 → Prop} {a n : Nat} {b : UInt8}

/-! ### Single bytes -/

/-- The byte at an address, if it may be read. -/
def byte? (m : Memory) (x : Nat) : Option UInt8 :=
  ((m.view? x).filter fun c => c.2.allows .read).map Prod.fst

/-- A byte that can be read. -/
theorem byte?_eq_some_iff {x : Nat} :
    m.byte? x = some b ↔ ∃ p, m.view? x = some (b, p) ∧ p.allows .read = true := by
  simp only [byte?, Option.map_eq_some_iff, Option.filter_eq_some_iff]
  constructor
  · rintro ⟨⟨_, p⟩, ⟨hview, hp⟩, rfl⟩
    exact ⟨p, hview, hp⟩
  · rintro ⟨p, hview, hp⟩
    exact ⟨(b, p), ⟨hview, hp⟩, rfl⟩

/-- Where a byte can be read, reading is permitted. -/
theorem permits_of_byte? {x : Nat} (h : m.byte? x = some b) : m.Permits (·.allows .read) x := by
  obtain ⟨p, hview, hp⟩ := byte?_eq_some_iff.mp h
  exact ⟨(b, p), hview, hp⟩

/-- Where no byte can be read, reading is not permitted. -/
theorem not_permits_of_byte? {x : Nat} (h : m.byte? x = none) : ¬ m.Permits (·.allows .read) x := by
  rintro ⟨⟨b, p⟩, hview, hp⟩
  exact Option.some_ne_none b ((byte?_eq_some_iff.mpr ⟨p, hview, hp⟩).symm.trans h)

/-- The last address is never mapped. -/
theorem byte?_last {x : Nat} (hx : UInt64.size ≤ x + 1) : m.byte? x = none := by
  rw [byte?, m.view?_eq_none_of_last hx]
  rfl

/-- Behind a byte that may be read there is another address. -/
theorem toNat_add_one {a : UInt64} (h : m.byte? a.toNat = some b) : (a + 1).toNat = a.toNat + 1 :=
  toNat_add_of_last (k := 0) (permits_of_byte? h)

/-- What reading a byte yields. -/
theorem readWord_w8 (h : m.table.WellFormed) (a : UInt64) :
    m.readWord .w8 a =
      match m.byte? a.toNat with
      | some b => .ok b.toUInt64
      | none => .error (m.offenseError .read a 1 a.toNat) := by
  have hcells := readsCells_load h true a 1
  have hnumber := readsNumber_readWord h .w8 a
  cases hb : m.byte? a.toNat with
  | some b =>
    obtain ⟨p, hview, -⟩ := byte?_eq_some_iff.mp hb
    obtain ⟨bs, hbs⟩ := hcells.isOk_iff.mpr fun x hax hx => by
      obtain rfl : x = a.toNat := by omega
      exact permits_of_byte? hb
    have hbytes : byteList bs = [b] := by
      have hmap := hcells.bytes bs hbs
      simp only [List.range'_one, List.map_cons, hview, Option.map_some, List.map_nil] at hmap
      exact (List.map_inj_right fun _ _ => Option.some.inj).mp hmap
    refine (hnumber.ok_iff _).mpr ⟨bs, hbs, ?_⟩
    rw [littleEndian, hbytes, LittleEndian.value_cons, LittleEndian.value_nil]
    exact UInt8.toNat_toUInt64 b
  | none =>
    refine (hnumber.error_iff _).mpr ((hcells.error_iff _).mpr ⟨a.toNat, ?_, rfl⟩)
    exact ⟨Nat.le_refl _, Nat.lt_succ_self _, not_permits_of_byte? hb, fun x hax hx => by omega⟩

/-! ### Scans -/

/-- The `n` bytes from `a` on may be read, and none of them is looked for. -/
def Passes (m : Memory) (stop : UInt8 → Prop) (a n : Nat) : Prop :=
  ∀ k < n, ∃ b, m.byte? (a + k) = some b ∧ ¬ stop b

/-- `n` bytes behind `a` is the first byte that is looked for, and all bytes up to it may be read. -/
structure ScanFinds (m : Memory) (stop : UInt8 → Prop) (a n : Nat) : Prop where
  passes : m.Passes stop a n
  found : ∃ b, m.byte? (a + n) = some b ∧ stop b

/-- `n` bytes behind `a` is the first byte that may not be read, and none before it is looked for. -/
structure ScanBreaks (m : Memory) (stop : UInt8 → Prop) (a n : Nat) : Prop where
  passes : m.Passes stop a n
  missing : m.byte? (a + n) = none

/-- The first byte is there and does not stop the search. -/
theorem Passes.first (h : m.Passes stop a (n + 1)) : ∃ b, m.byte? a = some b ∧ ¬ stop b :=
  h 0 (Nat.succ_pos n)

/-- The search passes all bytes behind the first one. -/
theorem Passes.tail (h : m.Passes stop a (n + 1)) : m.Passes stop (a + 1) n := by
  intro k hk
  obtain ⟨b, hb, hstop⟩ := h (k + 1) (Nat.succ_lt_succ hk)
  exact ⟨b, by rwa [Nat.add_right_comm, Nat.add_assoc], hstop⟩

/-- A scan does not pass the last address of all. -/
theorem Passes.lt_size (h : m.Passes stop a n) (ha : a < UInt64.size) : a + n < UInt64.size := by
  by_contra hbeyond
  obtain ⟨b, hb, -⟩ := h (UInt64.size - 1 - a) (by omega)
  rw [byte?_last (by omega)] at hb
  cases hb

/-- What is found is below the last address. -/
theorem ScanFinds.lt_last (h : m.ScanFinds stop a n) : a + n + 1 < UInt64.size := by
  obtain ⟨b, hb, -⟩ := h.found
  by_contra hbeyond
  rw [byte?_last (by omega)] at hb
  cases hb

/-- **Scans.** A scan finds a byte or breaks off. -/
theorem scan_cases (m : Memory) (stop : UInt8 → Prop) (a : Nat) :
    ∃ n, m.ScanFinds stop a n ∨ m.ScanBreaks stop a n := by
  classical
  -- the least distance at which the scan does not pass
  have hex : ∃ n, ¬ ∃ b, m.byte? (a + n) = some b ∧ ¬ stop b := by
    refine ⟨UInt64.size, ?_⟩
    rw [byte?_last (by omega)]
    rintro ⟨b, hb, -⟩
    cases hb
  have hpasses : m.Passes stop a (Nat.find hex) := fun k hk => not_not.mp (Nat.find_min hex hk)
  refine ⟨Nat.find hex, ?_⟩
  cases hb : m.byte? (a + Nat.find hex) with
  | none => exact Or.inr ⟨hpasses, hb⟩
  | some b =>
    refine Or.inl ⟨hpasses, b, hb, ?_⟩
    by_contra hstop
    exact Nat.find_spec hex ⟨b, hb, hstop⟩

end Memory

/-! ### How much is mapped -/

namespace Table

variable {t : Table} {lo hi : Nat}

/-- The number of bytes that all mappings hold. -/
def sizes (t : Table) : Nat :=
  (t.map fun m => m.bytes.size).sum

/-- **Room.** Only so many addresses are mapped as there are bytes. -/
theorem le_sizes_of_mapped (h : t.WellFormed) (hmapped : ∀ x, lo ≤ x → x < hi → t.view? x ≠ none) :
    hi - lo ≤ sizes t := by
  -- each mapping covers the addresses up to its end, and the others cover the rest
  induction t generalizing lo with
  | nil =>
    by_contra hlong
    exact hmapped lo (Nat.le_refl lo) (by omega) rfl
  | cons m t ih =>
    obtain ⟨hm, hmt, ht⟩ := wellFormed_cons.mp h
    have hsize := hm.size_bytes
    have hlt := hm.start_lt_stop
    have hsizes : sizes (m :: t) = m.bytes.size + sizes t := List.sum_cons
    have hrest : hi - max lo m.stop ≤ sizes t := ih ht fun x hx hxhi => by
      have hx' := hmapped x (by omega) hxhi
      rwa [view?_cons_of_outside t (Or.inr (by omega))] at hx'
    by_cases hinside : lo < m.stop ∧ lo < hi
    · have hstart : m.start ≤ lo := by
        by_contra hbefore
        exact hmapped lo (Nat.le_refl lo) hinside.2 (h.view?_before (Nat.not_le.mp hbefore))
      omega
    · omega

end Table

namespace Memory

variable {m : Memory}

/-- The number of bytes that the segments hold. The host has to store each of them. -/
def stored (m : Memory) : Nat :=
  Table.sizes m.table

/-- A host whose own addresses have 64 bits can store the bytes of all segments, beside at least one more. -/
def Storable (m : Memory) : Prop :=
  m.stored + 1 < UInt64.size

/-- A scan passes no more bytes than there are. -/
theorem Passes.le_stored {stop : UInt8 → Prop} {a n : Nat} (h : m.Passes stop a n)
    (hm : m.table.WellFormed) : n ≤ m.stored := by
  have hmapped : ∀ x, a ≤ x → x < a + n → m.table.view? x ≠ none := by
    intro x hax hx hnone
    obtain ⟨b, hb, -⟩ := h (x - a) (by omega)
    obtain ⟨p, hview, -⟩ := byte?_eq_some_iff.mp hb
    rw [Nat.add_sub_of_le hax] at hview
    exact Option.some_ne_none _ (hview.symm.trans hnone)
  have hle := Table.le_sizes_of_mapped hm hmapped
  rwa [Nat.add_sub_cancel_left] at hle

/-- Nowhere are there as many bytes to pass as a register can count. -/
theorem Storable.not_passes (h : m.Storable) (hm : m.table.WellFormed) (stop : UInt8 → Prop) (a : Nat) :
    ¬ m.Passes stop a (UInt64.size - 1) := by
  intro hpasses
  have hle := hpasses.le_stored hm
  have hroom : m.stored + 1 < UInt64.size := h
  omega

end Memory

end Amd64
