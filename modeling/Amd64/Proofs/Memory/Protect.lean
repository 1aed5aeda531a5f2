import Amd64.Proofs.Memory.Access

namespace Amd64

/-!
# New permissions for whole pages

A change of permissions divides the segments at both ends of a range of pages and then sets the permissions of
what lies inside.

* `Table.findSome?_splitAt` — dividing a mapping does not matter for what is looked up in its parts;
* `Table.DividedAt`         — no mapping lies on both sides of an address, as `Table.splitAt` achieves;
* `Table.DividedAt.view?_setPermissions` — between two such addresses all cells get the new permissions;
* `Memory.backing?`         — which byte of which object backs an address;
* `Memory.ProtectsPages`    — what a change of permissions does, said by addresses;
* `Memory.protect_pages`    — it does this in every reachable address space.
-/

/-! ### Dividing a mapping -/

namespace Mapping

variable {m : Mapping} {a : UInt64}

/-- The cells of a mapping are those of the two parts that it is divided into. -/
theorem Valid.cell?_parts (hm : m.Valid) (hlo : m.start < a.toNat) (hhi : a.toNat < m.stop) (x : Nat) :
    ((m.below a).cell? x).or ((m.above a).cell? x) = m.cell? x := by
  have hsize := hm.size_bytes
  have hbelow : (m.below a).start = m.start ∧ (m.below a).stop = a.toNat := ⟨rfl, rfl⟩
  have habove : (m.above a).start = a.toNat ∧ (m.above a).stop = m.stop := ⟨rfl, rfl⟩
  by_cases hx : m.start ≤ x ∧ x < m.stop
  -- inside the mapping, an address is in exactly one of the parts
  · by_cases hxa : x < a.toNat
    · have hcell : (m.below a).cell? x = m.cell? x := by
        rw [cell?_eq_map hx, cell?_eq_map (by omega)]
        show (byteList (m.bytes.extract 0 (a.toNat - m.start)))[x - m.start]?.map _ = _
        rw [byteList_extract, List.drop_zero, Nat.sub_zero, List.getElem?_take_of_lt (by omega)]
        rfl
      obtain ⟨b, hb⟩ := hm.cell?_eq_some hx
      rw [hcell, hb, Option.some_or]
    · have hcell : (m.above a).cell? x = m.cell? x := by
        rw [cell?_eq_map hx, cell?_eq_map (by omega)]
        show (byteList (m.bytes.extract (a.toNat - m.start) m.bytes.size))[x - a.toNat]?.map _ = _
        have hposition : a.toNat - m.start + (x - a.toNat) = x - m.start := by omega
        rw [byteList_extract, List.getElem?_take_of_lt (by omega), List.getElem?_drop, hposition]
        rfl
      rw [cell?_eq_none (by omega), hcell, Option.none_or]
  · rw [cell?_eq_none (by omega), cell?_eq_none (by omega), cell?_eq_none (by omega), Option.none_or]

end Mapping

namespace Table

variable {β : Type} {f : Mapping → Option β} {t : Table} {a : UInt64}

/-- What is looked up in one mapping after the other does not change where a mapping is divided, if looking at
    its parts amounts to looking at the mapping. -/
theorem findSome?_splitAt (h : t.WellFormed)
    (hparts : ∀ m : Mapping, m.Valid → m.start < a.toNat → a.toNat < m.stop →
      (f (m.below a)).or (f (m.above a)) = f m) :
    (splitAt a t).findSome? f = t.findSome? f := by
  induction t with
  | nil => rfl
  | cons m t ih =>
    obtain ⟨hm, -, ht⟩ := wellFormed_cons.mp h
    simp only [splitAt]
    split
    · next hin =>
      obtain ⟨hlo, hhi⟩ := Mapping.strictlyInside_iff.mp hin
      rw [List.findSome?_cons, List.findSome?_cons, List.findSome?_cons, ← hparts m hm hlo hhi]
      cases f (m.below a) <;> rfl
    · rw [List.findSome?_cons, List.findSome?_cons, ih ht]

/-- No mapping lies on both sides of `k`. -/
def DividedAt (t : Table) (k : Nat) : Prop :=
  ∀ m ∈ t, k ≤ m.start ∨ m.stop ≤ k

/-- Dividing a table at an address divides it there. -/
theorem dividedAt_splitAt (h : t.WellFormed) (a : UInt64) : (splitAt a t).DividedAt a.toNat := by
  induction t with
  | nil => simp [DividedAt, splitAt]
  | cons m t ih =>
    obtain ⟨-, hmt, ht⟩ := wellFormed_cons.mp h
    simp only [splitAt]
    split
    · next hin =>
      obtain ⟨hlo, hhi⟩ := Mapping.strictlyInside_iff.mp hin
      -- the parts meet at the address, and all other mappings lie behind both
      have hbehind : DividedAt t a.toNat := fun n hn => Or.inl (Nat.le_of_lt (hhi.trans_le (hmt n hn)))
      exact List.forall_mem_cons.mpr ⟨Or.inr (Nat.le_refl _),
        List.forall_mem_cons.mpr ⟨Or.inl (Nat.le_refl _), hbehind⟩⟩
    · next hout =>
      rw [Mapping.strictlyInside_iff] at hout
      exact List.forall_mem_cons.mpr ⟨by omega, ih ht⟩

/-- A table that is divided at one address remains so if it is divided at another. -/
theorem DividedAt.splitAt {k : Nat} (h : t.DividedAt k) (a : UInt64) : (splitAt a t).DividedAt k := by
  induction t with
  | nil => simp [DividedAt, Table.splitAt]
  | cons m t ih =>
    obtain ⟨hm, ht⟩ := List.forall_mem_cons.mp h
    simp only [Table.splitAt]
    split
    · next hin =>
      obtain ⟨hlo, hhi⟩ := Mapping.strictlyInside_iff.mp hin
      have hbelow : k ≤ (m.below a).start ∨ (m.below a).stop ≤ k := by
        show k ≤ m.start ∨ a.toNat ≤ k
        omega
      have habove : k ≤ (m.above a).start ∨ (m.above a).stop ≤ k := by
        show k ≤ a.toNat ∨ m.stop ≤ k
        omega
      exact List.forall_mem_cons.mpr ⟨hbelow, List.forall_mem_cons.mpr ⟨habove, ht⟩⟩
    · exact List.forall_mem_cons.mpr ⟨hm, ih ht⟩

/-- A mapping inside the range gets the new permissions, and one outside of it does not. -/
theorem cell?_setPermissions {m : Mapping} {start stop : UInt64}
    (hstart : start.toNat ≤ m.start ∨ m.stop ≤ start.toNat)
    (hstop : stop.toNat ≤ m.start ∨ m.stop ≤ stop.toNat) (p : Permissions) (x : Nat) :
    Mapping.cell?
      (if start ≤ m.segment.start && m.segment.start < stop then
        { m with segment := { m.segment with permissions := p } }
      else m) x =
      if start.toNat ≤ x ∧ x < stop.toNat then (m.cell? x).map fun c => (c.1, p) else m.cell? x := by
  have hinside : (start ≤ m.segment.start && m.segment.start < stop) = true ↔
      start.toNat ≤ m.start ∧ m.start < stop.toNat := by
    simp [UInt64.le_iff_toNat_le, UInt64.lt_iff_toNat_lt, Mapping.start]
  by_cases hx : m.start ≤ x ∧ x < m.stop
  · by_cases hin : start.toNat ≤ m.start ∧ m.start < stop.toNat
    · rw [if_pos (hinside.mpr hin), if_pos (by omega), Mapping.cell?_eq_map hx, Option.map_map]
      exact Mapping.cell?_eq_map (m := { m with segment := { m.segment with permissions := p } }) hx
    · rw [if_neg (mt hinside.mp hin), if_neg (by omega)]
  · -- neither the mapping nor what it becomes has a cell there
    have hnone : m.cell? x = none := if_neg hx
    have hnone' : Mapping.cell? { m with segment := { m.segment with permissions := p } } x = none :=
      if_neg hx
    split <;> split <;> simp only [hnone, hnone', Option.map_none]

/-- **New permissions.** In a table that is divided at both ends of a range, exactly the cells of the range get
    the new permissions. -/
theorem DividedAt.view?_setPermissions {start stop : UInt64} (hstart : t.DividedAt start.toNat)
    (hstop : t.DividedAt stop.toNat) (p : Permissions) (x : Nat) :
    (t.setPermissions start stop p).view? x =
      if start.toNat ≤ x ∧ x < stop.toNat then (t.view? x).map fun c => (c.1, p) else t.view? x := by
  induction t with
  | nil => simp [setPermissions, view?]
  | cons m t ih =>
    obtain ⟨hmstart, htstart⟩ := List.forall_mem_cons.mp hstart
    obtain ⟨hmstop, htstop⟩ := List.forall_mem_cons.mp hstop
    rw [setPermissions, List.map_cons, view?_cons, view?_cons, cell?_setPermissions hmstart hmstop]
    have hrest := ih htstart htstop
    rw [setPermissions] at hrest
    rw [hrest]
    split
    · rw [Option.map_or]
    · rfl

end Table

/-! ### Backing objects -/

/-- The name of a segment and the position in its backing object, for one of the addresses of a mapping. -/
def Mapping.backing? (m : Mapping) (a : UInt64) : Option (String × UInt64) :=
  if m.segment.contains a then some (m.segment.name, m.segment.offset + (a - m.segment.start)) else none

namespace Memory

variable {m : Memory}

/-- The name of the segment at an address, and the position in the object that backs the segment. -/
def backing? (m : Memory) (a : UInt64) : Option (String × UInt64) :=
  (m.segmentAt? a).map fun s => (s.name, s.offset + (a - s.start))

/-- The one mapping that covers an address may be looked for from the first one on. -/
theorem backing?_eq (h : m.table.WellFormed) (a : UInt64) :
    m.backing? a = m.table.findSome? (·.backing? a) := by
  cases hlook : m.table.findSome? (·.backing? a) with
  | some b =>
    obtain ⟨x, hx, hb⟩ := List.exists_of_findSome?_eq_some hlook
    obtain ⟨hcovers, hbx⟩ := Option.ite_none_right_eq_some.mp hb
    rw [backing?, segmentAt?, h.find?_eq_some_iff.mpr ⟨hx, hcovers⟩]
    exact hbx
  | none =>
    have hnone : m.table.find? a = none := by
      rw [Option.eq_none_iff_forall_ne_some]
      intro x hfind
      obtain ⟨hx, hcovers⟩ := h.find?_eq_some_iff.mp hfind
      have hb : x.backing? a = none := List.findSome?_eq_none_iff.mp hlook x hx
      rw [Mapping.backing?, if_pos hcovers] at hb
      cases hb
    rw [backing?, segmentAt?, hnone]
    rfl

end Memory

/-- Both parts of a mapping are backed by the same object, at the same positions as before. -/
theorem Mapping.backing?_parts {m : Mapping} {a : UInt64} (hlo : m.start < a.toNat)
    (hhi : a.toNat < m.stop) (x : UInt64) :
    ((m.below a).backing? x).or ((m.above a).backing? x) = m.backing? x := by
  have hbelow : (m.below a).segment.contains x = true ↔ m.start ≤ x.toNat ∧ x.toNat < a.toNat :=
    Segment.contains_iff _ _
  have habove : (m.above a).segment.contains x = true ↔ a.toNat ≤ x.toNat ∧ x.toNat < m.stop :=
    Segment.contains_iff _ _
  have hwhole : m.segment.contains x = true ↔ m.start ≤ x.toNat ∧ x.toNat < m.stop :=
    Segment.contains_iff _ _
  simp only [backing?, hbelow, habove, hwhole]
  by_cases hxa : x.toNat < a.toNat
  · by_cases hx : m.start ≤ x.toNat
    · rw [if_pos ⟨hx, hxa⟩, if_neg (by omega), if_pos (by omega), Option.some_or]
      rfl
    · rw [if_neg (by omega), if_neg (by omega), if_neg (by omega), Option.none_or]
  · by_cases hx : x.toNat < m.stop
    · -- the offset advances with the start, so that the position of each byte stays
      have hposition : m.segment.offset + (a - m.segment.start) + (x - a) =
          m.segment.offset + (x - m.segment.start) := by grind
      rw [if_neg (by omega), if_pos (by omega), if_pos (by omega), Option.none_or]
      exact congrArg (fun position => some (m.segment.name, position)) hposition
    · rw [if_neg (by omega), if_neg (by omega), if_neg (by omega), Option.none_or]

/-- Permissions do not matter for what backs a segment. -/
theorem Table.backing?_setPermissions (t : Table) (start stop : UInt64) (p : Permissions) (x : UInt64) :
    (t.setPermissions start stop p).findSome? (·.backing? x) = t.findSome? (·.backing? x) := by
  rw [Table.setPermissions, List.findSome?_map]
  refine congrArg (List.findSome? · t) (funext fun m => ?_)
  simp only [Function.comp_apply]
  split <;> rfl

/-! ### Whole pages -/

namespace Memory

/-- The first address of the page that holds `a`, as a natural number. -/
def pagesStart (a : UInt64) : Nat :=
  a.toNat / 4096 * 4096

/-- The address behind the pages that hold `len` bytes from `a` on, were there no greatest address. -/
def pagesStop (a len : UInt64) : Nat :=
  (a.toNat + len.toNat + 4095) / 4096 * 4096

/-- What giving the pages of the `len` bytes from `a` on the permissions `p` does. -/
structure ProtectsPages (m : Memory) (a len : UInt64) (p : Permissions)
    (result : Except MemoryError Unit × Memory) : Prop where
  /-- It succeeds if there are no bytes, and else if and only if the pages end within 64 bits and are mapped. -/
  isOk_iff : result.1 = .ok () ↔ len = 0 ∨ pagesStop a len < UInt64.size ∧
    ∀ x, pagesStart a ≤ x → x < pagesStop a len → (m.view? x).isSome
  /-- It does nothing if there are no bytes. -/
  empty : len = 0 → result = (.ok (), m)
  /-- It fails without effect if the pages end beyond 64 bits. -/
  overflow : len ≠ 0 → UInt64.size ≤ pagesStop a len → result = (.error (.badRange a (a + len)), m)
  /-- It fails without effect if one of their bytes is not mapped. -/
  unmapped : len ≠ 0 → pagesStop a len < UInt64.size →
    (∃ x, pagesStart a ≤ x ∧ x < pagesStop a len ∧ m.view? x = none) →
      result = (.error (.denied a len .protect), m)
  /-- All of their bytes get the permissions. -/
  inside : result.1 = .ok () → len ≠ 0 →
    ∀ x, pagesStart a ≤ x → x < pagesStop a len → result.2.permissions? x = some p
  /-- No other byte does. -/
  outside : result.1 = .ok () →
    ∀ x, x < pagesStart a ∨ pagesStop a len ≤ x → result.2.permissions? x = m.permissions? x
  /-- The same addresses are mapped, with the same bytes. -/
  bytes : result.1 = .ok () → ∀ x, (result.2.view? x).map Prod.fst = (m.view? x).map Prod.fst
  /-- They are backed by the same objects, at the same positions. -/
  backing : result.1 = .ok () → ∀ x, result.2.backing? x = m.backing? x

variable {m : Memory} {a len stop : UInt64}

/-- The pages of a range end within 64 bits, or they have no end. -/
theorem pagesEnd?_eq_some_iff :
    pagesEnd? a len = some stop ↔ pagesStop a len < UInt64.size ∧ stop.toNat = pagesStop a len := by
  have hsize : UInt64.size = 2 ^ 64 := rfl
  have hlimit : pagesStop a len < UInt64.size ↔ a.toNat + len.toNat + 4095 < UInt64.size := by
    unfold pagesStop
    omega
  unfold pagesEnd?
  split
  · next hfits =>
    have hsum : (a + len).toNat = a.toNat + len.toNat := by
      rw [UInt64.toNat_add]
      exact Nat.mod_eq_of_lt hfits
    rw [Page.ceil?_eq_some_iff, hsum, hlimit]
    exact Iff.rfl
  · next hlong =>
    rw [hlimit]
    constructor
    · intro hnone
      cases hnone
    · rintro ⟨hfits, -⟩
      omega

/-- The rounded end is not an address. -/
theorem pagesEnd?_eq_none_iff : pagesEnd? a len = none ↔ UInt64.size ≤ pagesStop a len := by
  rw [Option.eq_none_iff_forall_ne_some]
  constructor
  · intro hnone
    by_contra hfits
    have hfits := Nat.not_le.mp hfits
    have hstop : (UInt64.ofNat (pagesStop a len)).toNat = pagesStop a len := by
      rw [UInt64.toNat_ofNat']
      exact Nat.mod_eq_of_lt hfits
    exact hnone _ (pagesEnd?_eq_some_iff.mpr ⟨hfits, hstop⟩)
  · intro hlong stop hstop
    obtain ⟨hfits, -⟩ := pagesEnd?_eq_some_iff.mp hstop
    omega

/-- The table that a change of permissions leaves, cell by cell. -/
theorem view?_protected (h : m.table.WellFormed) (start stop : UInt64) (p : Permissions) (x : Nat) :
    (((m.table.splitAt start).splitAt stop).setPermissions start stop p).view? x =
      if start.toNat ≤ x ∧ x < stop.toNat then (m.view? x).map fun c => (c.1, p) else m.view? x := by
  have hdivided : ((m.table.splitAt start).splitAt stop).view? x = m.view? x := by
    have hparts : ∀ (b : UInt64) (y : Mapping), y.Valid → y.start < b.toNat → b.toNat < y.stop →
        ((y.below b).cell? x).or ((y.above b).cell? x) = y.cell? x :=
      fun _ _ hy hlo hhi => hy.cell?_parts hlo hhi x
    exact (Table.findSome?_splitAt (h.splitAt start) (hparts stop)).trans
      (Table.findSome?_splitAt h (hparts start))
  have hstart : ((m.table.splitAt start).splitAt stop).DividedAt start.toNat :=
    (Table.dividedAt_splitAt h start).splitAt stop
  rw [hstart.view?_setPermissions (Table.dividedAt_splitAt (h.splitAt start) stop), hdivided]

/-- The table that a change of permissions leaves, by what backs the addresses. -/
theorem backing?_protected (h : m.table.WellFormed) (start stop : UInt64) (p : Permissions) (x : UInt64) :
    (((m.table.splitAt start).splitAt stop).setPermissions start stop p).findSome? (·.backing? x) =
      m.backing? x := by
  have hparts : ∀ (b : UInt64) (y : Mapping), y.Valid → y.start < b.toNat → b.toNat < y.stop →
      ((y.below b).backing? x).or ((y.above b).backing? x) = y.backing? x :=
    fun _ _ _ hlo hhi => Mapping.backing?_parts hlo hhi x
  rw [Table.backing?_setPermissions, backing?_eq h]
  exact (Table.findSome?_splitAt (h.splitAt start) (hparts stop)).trans
    (Table.findSome?_splitAt h (hparts start))

/-- The check of a change of permissions passes if every byte of the pages is mapped. -/
theorem obstacle?_isSome_iff (h : m.table.WellFormed) {k n : Nat} :
    (m.table.obstacle? (fun _ => true) k n).isSome = true ↔
      ∃ x, k ≤ x ∧ x < k + n ∧ m.view? x = none := by
  have hpermits : ∀ x, m.Permits (fun _ => true) x ↔ m.view? x ≠ none := fun x => by
    simp [Permits, Option.ne_none_iff_exists']
  rw [Option.isSome_iff_ne_none, Ne, obstacle?_eq_none_iff h]
  simp only [hpermits]
  grind

/-- What a change of permissions does where all pages are mapped. -/
theorem protectsPages_of_mapped (h : m.table.WellFormed) (p : Permissions) (hlen : len ≠ 0)
    (hend : pagesEnd? a len = some stop)
    (hmapped : ∀ x, pagesStart a ≤ x → x < pagesStop a len → (m.view? x).isSome) :
    m.ProtectsPages a len p (.ok (), ⟨m.window,
      ((m.table.splitAt (Page.floor a)).splitAt stop).setPermissions (Page.floor a) stop p⟩) := by
  obtain ⟨hfits, hstop⟩ := pagesEnd?_eq_some_iff.mp hend
  -- two cuts and the change between them keep the table well formed
  have hwf := ((h.splitAt (Page.floor a)).splitAt stop).setPermissions (Page.floor a) stop p
  -- in the view only permissions between the borders are others
  have hview := view?_protected h (Page.floor a) stop p
  rw [show (Page.floor a).toNat = pagesStart a from Page.toNat_floor a, hstop] at hview
  constructor
  case isOk_iff => exact ⟨fun _ => Or.inr ⟨hfits, hmapped⟩, fun _ => rfl⟩
  case empty => exact fun hempty => absurd hempty hlen
  case overflow => exact fun _ hlong => absurd hfits (Nat.not_lt.mpr hlong)
  case unmapped =>
    rintro - - ⟨x, hlow, hhigh, hnone⟩
    simpa [hnone] using hmapped x hlow hhigh
  case inside =>
    intro _ _ x hlow hhigh
    obtain ⟨c, hc⟩ := Option.isSome_iff_exists.mp (hmapped x hlow hhigh)
    rw [permissions?, Memory.view?, hview x, if_pos ⟨hlow, hhigh⟩, hc]
    rfl
  case outside =>
    intro _ x hx
    rw [permissions?, Memory.view?, hview x, if_neg (by omega)]
    rfl
  case bytes =>
    intro _ x
    rw [Memory.view?, hview x]
    split
    · rw [Option.map_map]
      rfl
    · rfl
  case backing =>
    intro _ x
    exact (backing?_eq hwf x).trans (backing?_protected h _ _ p x)

/-- What a change of permissions does where the pages end beyond 64 bits. -/
theorem protectsPages_of_overflow (p : Permissions) (hlen : len ≠ 0)
    (hlong : UInt64.size ≤ pagesStop a len) :
    m.ProtectsPages a len p (.error (.badRange a (a + len)), m) := by
  constructor
  case isOk_iff => simp [hlen, Nat.not_lt.mpr hlong]
  case empty => exact fun hempty => absurd hempty hlen
  case overflow => exact fun _ _ => rfl
  case unmapped => exact fun _ hfits => absurd hlong (Nat.not_le.mpr hfits)
  case inside | outside | bytes | backing => exact nofun

/-- What a change of permissions does where a byte of the pages is missing. -/
theorem protectsPages_of_unmapped (p : Permissions) (hlen : len ≠ 0)
    (hfits : pagesStop a len < UInt64.size) {x : Nat} (hlow : pagesStart a ≤ x)
    (hhigh : x < pagesStop a len) (hnone : m.view? x = none) :
    m.ProtectsPages a len p (.error (.denied a len .protect), m) := by
  have hnotAll : ¬ ∀ x, pagesStart a ≤ x → x < pagesStop a len → (m.view? x).isSome :=
    fun hall => by simpa [hnone] using hall x hlow hhigh
  constructor
  case isOk_iff => simp [hlen, hnotAll]
  case empty => exact fun hempty => absurd hempty hlen
  case overflow => exact fun _ hlong => absurd hfits (Nat.not_lt.mpr hlong)
  case unmapped => exact fun _ _ _ => rfl
  case inside | outside | bytes | backing => exact nofun

/-- What a change of permissions of no bytes does. -/
theorem protectsPages_of_empty (p : Permissions) (hlen : len = 0) :
    m.ProtectsPages a len p (.ok (), m) := by
  constructor
  case isOk_iff => exact ⟨fun _ => Or.inl hlen, fun _ => rfl⟩
  case empty => exact fun _ => rfl
  case overflow | unmapped => exact fun hpos => absurd hlen hpos
  case inside => exact fun _ hpos => absurd hlen hpos
  case outside | bytes | backing => intros; rfl

/-- **Changes of permissions.** In a reachable address space, a change of permissions takes effect on the pages
    that hold a byte of the range, if these end within 64 bits and are mapped.  It changes the permissions of
    their bytes and nothing else: neither what is mapped, nor the bytes, nor what backs them.  If it fails
    nothing changes. -/
theorem protect_pages (h : m.Reachable) (a len : UInt64) (p : Permissions) :
    m.ProtectsPages a len p (outcome (protect a len p) m) := by
  have hwf := h.wellFormed
  rw [outcome_protect]
  split
  · next hlen => exact protectsPages_of_empty p hlen
  · next hlen =>
    split
    · next hend => exact protectsPages_of_overflow p hlen (pagesEnd?_eq_none_iff.mp hend)
    · next stop hend =>
      obtain ⟨hfits, hstop⟩ := pagesEnd?_eq_some_iff.mp hend
      have hstart : (Page.floor a).toNat = pagesStart a := Page.toNat_floor a
      have hrange : pagesStart a + (pagesStop a len - pagesStart a) = pagesStop a len := by
        unfold pagesStart pagesStop
        omega
      have hobstacle := obstacle?_isSome_iff hwf (k := pagesStart a)
        (n := pagesStop a len - pagesStart a)
      rw [hrange, ← hstart, ← hstop] at hobstacle
      dsimp only
      split
      · next hmissing =>
        obtain ⟨x, hlow, hhigh, hnone⟩ := hobstacle.mp hmissing
        exact protectsPages_of_unmapped p hlen hfits (hstart ▸ hlow) (hstop ▸ hhigh) hnone
      · next hall =>
        -- the check has passed, so every byte of the pages is mapped
        rw [hobstacle, hstart, hstop] at hall
        exact protectsPages_of_mapped hwf p hlen hend fun x hlow hhigh =>
          Option.isSome_iff_ne_none.mpr fun hnone => hall ⟨x, hlow, hhigh, hnone⟩

/-- A segment that neither starts nor ends at the boundary of a page. -/
def unaligned : Memory :=
  (empty {}).afterCalls [.map ⟨0x1800, 0x4800, .readWrite, 0x200, "data"⟩ (packed [1, 2, 3])]

/-- One byte makes its whole page read-only, which divides the segment into three. -/
theorem protect_pages_unaligned :
    unaligned.Reachable ∧
      (outcome (protect 0x2010 1 ⟨true, false, false⟩) unaligned).1 = .ok () ∧
      (∀ x, 0x2000 ≤ x → x < 0x3000 →
        (outcome (protect 0x2010 1 ⟨true, false, false⟩) unaligned).2.permissions? x =
          some ⟨true, false, false⟩) ∧
      (outcome (protect 0x2010 1 ⟨true, false, false⟩) unaligned).2.permissions? 0x1802 =
        unaligned.permissions? 0x1802 ∧
      (outcome (protect 0x2010 1 ⟨true, false, false⟩) unaligned).2.backing? 0x3001 =
        some ("data", 0x1a01) ∧
      (outcome (protect 0x4010 1 ⟨true, false, false⟩) unaligned).1 =
        .error (.denied 0x4010 1 .protect) := by
  have h : unaligned.Reachable := ⟨_, _, rfl⟩
  have hsome := protect_pages h 0x2010 1 ⟨true, false, false⟩
  have hok : (outcome (protect 0x2010 1 ⟨true, false, false⟩) unaligned).1 = .ok () := by
    decide +kernel
  have hbacking : unaligned.backing? 0x3001 = some ("data", 0x1a01) := by decide +kernel
  refine ⟨h, hok, hsome.inside hok (by decide), ?_, ?_, ?_⟩
  · exact hsome.outside hok 0x1802 (Or.inl (by decide))
  · exact (hsome.backing hok 0x3001).trans hbacking
  · decide +kernel

end Memory

end Amd64
