import Amd64.Proofs.LittleEndian
import Amd64.Proofs.Memory.Reachable
import Amd64.Proofs.Memory.View
import Mathlib.Order.Basic
import Mathlib.Data.Nat.Find

namespace Amd64

/-!
# Data accesses see cells only

* `Memory.view?`, `Memory.Permits` — the cell at an address and whether an access may use it;
* `Memory.FirstOffense` — the lowest address of a range at which an access fails;
* `Memory.ReadsCells`, `Memory.WritesCells` — what a read and a write of a range do, said by cells;
* `Memory.readsCells_load`, `Memory.writesCells_store` — reads and writes do this;
* `Memory.dataAccess_view` — so the division of memory into segments does not matter for data.
-/

namespace Memory

/-- The cell at an address, if it is mapped. -/
def view? (m : Memory) (x : Nat) : Option Cell :=
  m.table.view? x

/-- Whether `x` is mapped with permissions for which `ok` holds. -/
def Permits (m : Memory) (ok : Permissions → Bool) (x : Nat) : Prop :=
  ∃ c, m.view? x = some c ∧ ok c.2 = true

/-- `b` is the lowest of the `n` addresses from `a` on that is not mapped with permissions for which
    `ok` holds. -/
structure FirstOffense (m : Memory) (ok : Permissions → Bool) (a n b : Nat) : Prop where
  le : a ≤ b
  lt : b < a + n
  offends : ¬ m.Permits ok b
  permits : ∀ x, a ≤ x → x < b → m.Permits ok x

/-- The error of an access of `n` bytes from `a` on that fails first at `b`. -/
def offenseError (m : Memory) (access : Access) (a : UInt64) (n b : Nat) : MemoryError :=
  if (m.view? b).isSome then .denied a (UInt64.ofNat n) access else .unmapped a (UInt64.ofNat n)

/-- What a read of `n` bytes from `a` on does that needs permissions with `ok`. -/
structure ReadsCells (m : Memory) (ok : Permissions → Bool) (a : UInt64) (n : Nat)
    (result : Except MemoryError ByteArray) : Prop where
  /-- It succeeds if and only if every address of the range permits it. -/
  isOk_iff : (∃ bs, result = .ok bs) ↔ ∀ x, a.toNat ≤ x → x < a.toNat + n → m.Permits ok x
  /-- It yields the bytes of the cells in address order. -/
  bytes : ∀ bs, result = .ok bs →
    (byteList bs).map some = (List.range' a.toNat n).map fun x => (m.view? x).map Prod.fst
  /-- It fails with the error of the lowest address that does not permit it. -/
  error_iff : ∀ e, result = .error e ↔
    ∃ b, m.FirstOffense ok a.toNat n b ∧ e = m.offenseError .read a n b

/-- What a write of `data` from `a` on does that needs permissions with `ok`. -/
structure WritesCells (m : Memory) (ok : Permissions → Bool) (a : UInt64) (data : ByteArray)
    (result : Except MemoryError Unit × Memory) : Prop where
  /-- It succeeds if and only if every address of the range permits it. -/
  isOk_iff : result.1 = .ok () ↔
    ∀ x, a.toNat ≤ x → x < a.toNat + data.size → m.Permits ok x
  /-- The bytes of the range are replaced. -/
  inside : result.1 = .ok () → ∀ i (hi : i < data.size),
    result.2.view? (a.toNat + i) = (m.view? (a.toNat + i)).map fun c => (data[i], c.2)
  /-- All other cells stay. -/
  outside : result.1 = .ok () → ∀ x, x < a.toNat ∨ a.toNat + data.size ≤ x →
    result.2.view? x = m.view? x
  /-- So do the segments. -/
  segments : result.2.segments = m.segments ∧ result.2.window = m.window
  /-- It fails with the error of the lowest address that does not permit it. -/
  error_iff : ∀ e, result.1 = .error e ↔
    ∃ b, m.FirstOffense ok a.toNat data.size b ∧ e = m.offenseError .write a data.size b
  /-- Nothing changes if it fails. -/
  unchanged : ∀ e, result.1 = .error e → result.2 = m

/-! ### Checks -/

variable {m : Memory} {ok : Permissions → Bool}

/-- There is no obstacle where the byte is there and permits it. -/
theorem ofCell?_eq_none_iff {x : Nat} :
    Obstacle.ofCell? ok (m.view? x) = none ↔ m.Permits ok x := by
  unfold Obstacle.ofCell? Permits
  cases m.view? x <;> simp

/-- A check passes if every address permits the access. -/
theorem obstacle?_eq_none_iff (h : m.table.WellFormed) {a n : Nat} :
    m.table.obstacle? ok a n = none ↔ ∀ x, a ≤ x → x < a + n → m.Permits ok x := by
  rw [h.obstacle?_eq, List.findSome?_eq_none_iff]
  constructor
  · intro hall x hax hxn
    exact ofCell?_eq_none_iff.mp
      (hall _ (List.mem_map_of_mem (List.mem_range'_1.mpr ⟨hax, hxn⟩)))
  · intro hall c hc
    obtain ⟨x, hx, rfl⟩ := List.mem_map.mp hc
    obtain ⟨hax, hxn⟩ := List.mem_range'_1.mp hx
    exact ofCell?_eq_none_iff.mpr (hall x hax hxn)

/-- A check that fails reports the cell at the lowest address that does not permit the access. -/
theorem obstacle?_of_firstOffense (h : m.table.WellFormed) {a n b : Nat}
    (hb : m.FirstOffense ok a n b) : m.table.obstacle? ok a n = Obstacle.ofCell? ok (m.view? b) := by
  obtain ⟨hle, hlt, hoff, hper⟩ := hb
  have hbefore : (m.table.cells a (b - a)).findSome? (Obstacle.ofCell? ok) = none := by
    rw [← h.obstacle?_eq]
    exact (obstacle?_eq_none_iff h).mpr fun x hax hxb => hper x hax (by omega)
  have hsome : Obstacle.ofCell? ok (m.view? b) ≠ none := fun hnone =>
    hoff (ofCell?_eq_none_iff.mp hnone)
  obtain ⟨o, ho⟩ := Option.ne_none_iff_exists'.mp hsome
  -- the range divides at `b` into cells without obstacle and the rest, which begins with one
  rw [h.obstacle?_eq, show n = (b - a) + (n - (b - a)) by omega, Table.cells_append,
    List.findSome?_append, hbefore, Option.none_or, show a + (b - a) = b by omega,
    Table.cells_of_pos _ _ (by omega), List.findSome?_cons]
  rw [show m.table.view? b = m.view? b from rfl, ho]

/-- Where not all addresses permit the access there is a lowest one that does not. -/
theorem exists_firstOffense {a n : Nat} (h : ¬ ∀ x, a ≤ x → x < a + n → m.Permits ok x) :
    ∃ b, m.FirstOffense ok a n b := by
  classical
  have hex : ∃ b, a ≤ b ∧ b < a + n ∧ ¬ m.Permits ok b := by
    by_contra hno
    exact h fun x hax hxn => by_contra fun hx => hno ⟨x, hax, hxn, hx⟩
  obtain ⟨hle, hlt, hoff⟩ := Nat.find_spec hex
  refine ⟨Nat.find hex, hle, hlt, hoff, fun x hax hxb => ?_⟩
  exact by_contra fun hx => Nat.find_min hex hxb ⟨hax, by omega, hx⟩

/-! ### Reads and writes -/

/-- An access is allowed if each of its bytes is there and permits it. -/
theorem accessError?_eq_none_iff (h : m.table.WellFormed) {access : Access} {enforce : Bool}
    {a : UInt64} {n : Nat} :
    m.accessError? access enforce a n = none ↔
      ∀ x, a.toNat ≤ x → x < a.toNat + n → m.Permits (fun p => !enforce || p.allows access) x := by
  rw [← obstacle?_eq_none_iff h, accessError?]
  split <;> simp_all

/-- The error of an access is the error of the lowest address that does not permit it. -/
theorem accessError?_eq_some_iff (h : m.table.WellFormed) {access : Access} {enforce : Bool}
    {a : UInt64} {n : Nat} {e : MemoryError} :
    m.accessError? access enforce a n = some e ↔
      ∃ b, m.FirstOffense (fun p => !enforce || p.allows access) a.toNat n b ∧
        e = m.offenseError access a n b := by
  have herror : ∀ b, m.FirstOffense (fun p => !enforce || p.allows access) a.toNat n b →
      m.accessError? access enforce a n = some (m.offenseError access a n b) := by
    intro b hb
    rw [accessError?, obstacle?_of_firstOffense h hb, offenseError]
    cases hview : m.view? b with
    | none => rfl
    | some c =>
      -- the address is mapped, so it offends by its permissions
      have hno : (!enforce || c.2.allows access) = false :=
        Bool.eq_false_iff.mpr fun hyes => hb.offends ⟨c, hview, hyes⟩
      simp [Obstacle.ofCell?, hno]
  constructor
  · intro he
    have hsome : m.accessError? access enforce a n ≠ none := by
      rw [he]
      exact Option.some_ne_none e
    obtain ⟨b, hb⟩ := exists_firstOffense fun hall =>
      hsome ((accessError?_eq_none_iff h).mpr hall)
    exact ⟨b, hb, Option.some.inj (he.symm.trans (herror b hb))⟩
  · rintro ⟨b, hb, rfl⟩
    exact herror b hb

/-- Where every address permits an access, all are mapped. -/
theorem none_not_mem_cells {a n : Nat} (h : ∀ x, a ≤ x → x < a + n → m.Permits ok x) :
    none ∉ m.table.cells a n := by
  intro hin
  obtain ⟨x, hx, hnone⟩ := List.mem_map.mp hin
  obtain ⟨hax, hxn⟩ := List.mem_range'_1.mp hx
  obtain ⟨c, hc, _⟩ := h x hax hxn
  exact absurd (hnone.symm.trans hc) (by simp)

/-- **Reads.** A read sees the cells of its range and nothing else. -/
theorem readsCells_load (h : m.table.WellFormed) (enforce : Bool) (a : UInt64) (n : Nat) :
    m.ReadsCells (fun p => !enforce || p.allows .read) a n (m.load enforce a n) := by
  have hok : m.accessError? .read enforce a n = none ↔
      ∀ x, a.toNat ≤ x → x < a.toNat + n → m.Permits (fun p => !enforce || p.allows .read) x :=
    accessError?_eq_none_iff h
  refine ⟨?_, ?_, ?_⟩
  · rw [← hok, load]
    split <;> simp_all
  · intro bs hbs
    rw [load] at hbs
    split at hbs
    · next hnone =>
      obtain rfl := Except.ok.inj hbs
      rw [h.byteList_gather (none_not_mem_cells (hok.mp hnone)), Table.cells, List.map_map]
      rfl
    · simp at hbs
  · intro e
    rw [← accessError?_eq_some_iff h, load]
    cases m.accessError? .read enforce a n <;> simp

/-- A write that succeeds lays its bytes over the cells. -/
theorem view?_store (h : m.table.WellFormed) {enforce : Bool} {a : UInt64} {data : ByteArray}
    (hok : (outcome (store enforce a data) m).1 = .ok ()) :
    (outcome (store enforce a data) m).2.view? = overlay m.view? a.toNat (byteList data) := by
  rw [outcome_store] at hok ⊢
  split at hok
  · next hnone =>
    -- nothing stood in the way, so every address of the range is mapped
    have hcells : none ∉ m.table.cells a.toNat (data.size - 0) :=
      none_not_mem_cells ((accessError?_eq_none_iff h).mp hnone)
    exact funext fun x => h.view?_scatter hcells x
  · cases hok

/-- **Writes.** A write replaces the cells of its range and nothing else. -/
theorem writesCells_store (h : m.table.WellFormed) (enforce : Bool) (a : UInt64)
    (data : ByteArray) :
    m.WritesCells (fun p => !enforce || p.allows .write) a data
      (outcome (store enforce a data) m) := by
  have hok : m.accessError? .write enforce a data.size = none ↔ ∀ x, a.toNat ≤ x →
      x < a.toNat + data.size → m.Permits (fun p => !enforce || p.allows .write) x :=
    accessError?_eq_none_iff h
  refine ⟨?_, ?_, ?_, ?_, ?_, ?_⟩
  -- the write goes through exactly when the check finds no obstacle
  · rw [← hok, outcome_store]
    split <;> simp_all
  · intro hsucc i hi
    have hlt : a.toNat + i - a.toNat < (byteList data).length := by
      rw [length_byteList]
      -- inside the range the new cells are the data, and elsewhere the old ones
      omega
    rw [view?_store h hsucc, overlay_of_inside (Nat.le_add_right _ _) hlt]
    simp only [Nat.add_sub_cancel_left]
    rfl
  · intro hsucc x hx
    rw [view?_store h hsucc, overlay_of_outside (by rwa [length_byteList])]
  · rw [outcome_store]
    split
    · exact ⟨Table.segments_scatter data m.table a.toNat 0, rfl⟩
    · exact ⟨rfl, rfl⟩
  · intro e
    rw [← accessError?_eq_some_iff h, outcome_store]
    cases m.accessError? .write enforce a data.size <;> simp
  · intro e
    rw [outcome_store]
    cases m.accessError? .write enforce a data.size <;> simp

/-! ### Numbers -/

/-- What a read of a number from `a` on does: it yields the number that the bytes of a read stand for. -/
structure ReadsNumber (m : Memory) (a : UInt64) (n : Nat) {α : Type} (toNat : α → Nat)
    (result : Except MemoryError α) : Prop where
  ok_iff : ∀ v, result = .ok v ↔ ∃ bs, m.readBytes a n = .ok bs ∧ toNat v = littleEndian bs
  error_iff : ∀ e, result = .error e ↔ m.readBytes a n = .error e

/-- A number that is determined by its bytes is read as their number. -/
theorem readsNumber_map {α : Type} {toNat : α → Nat} {ofNat : Nat → α} {a : UInt64} {n : Nat}
    (h : m.table.WellFormed) (hinj : ∀ v, ofNat (toNat v) = v)
    (hsmall : ∀ k, k < 256 ^ n → toNat (ofNat k) = k) :
    m.ReadsNumber a n toNat (do return ofNat (littleEndian (← m.readBytes a n))) := by
  have hbytes := (readsCells_load h true a n).bytes
  change ∀ bs, m.readBytes a n = .ok bs → _ at hbytes
  cases hread : m.readBytes a n with
  | error e =>
    constructor
    · intro v
      simp [bind, Except.bind, hread]
    · intro e'
      simp [bind, Except.bind, hread]
  | ok bs =>
    -- `n` bytes are read, so their number is below `256 ^ n` and no bits are lost
    have hlen : bs.size = n := by
      have hl := congrArg List.length (hbytes bs hread)
      simpa using hl
    have hlt : littleEndian bs < 256 ^ n := by
      rw [← hlen]
      exact LittleEndian.value_lt (byteList bs)
    refine ⟨fun v => ?_, fun e => by simp [bind, Except.bind, pure, Except.pure, hread]⟩
    constructor
    · intro hv
      obtain rfl := Except.ok.inj hv
      exact ⟨bs, hread, hsmall _ hlt⟩
    · rintro ⟨bs', hbs', hv⟩
      obtain rfl := Except.ok.inj (hread.symm.trans hbs')
      show Except.ok (ofNat (littleEndian bs)) = Except.ok v
      rw [← hv, hinj]

/-- A word is read from its bytes. -/
theorem readsNumber_readWord (h : m.table.WellFormed) (w : Width) (a : UInt64) :
    m.ReadsNumber a w.bytes UInt64.toNat (m.readWord w a) := by
  refine readsNumber_map h (fun v => UInt64.ofNat_toNat) fun k hk => ?_
  rw [UInt64.toNat_ofNat']
  refine Nat.mod_eq_of_lt (Nat.lt_of_lt_of_le hk ?_)
  cases w <;> decide

/-- A number of 128 bits is read from its bytes. -/
theorem readsNumber_readXmm (h : m.table.WellFormed) (a : UInt64) :
    m.ReadsNumber a 16 BitVec.toNat (m.readXmm a) := by
  refine readsNumber_map h (fun v => BitVec.ofNat_toNat 128 v) fun k hk => ?_
  rw [BitVec.toNat_ofNat]
  exact Nat.mod_eq_of_lt (Nat.lt_of_lt_of_le hk (by decide))

/-! ### The view decides

Permissions decide whether an access succeeds; the bytes that it may use decide the rest. -/

/-- The permissions at an address, if it is mapped. -/
def permissions? (m : Memory) (x : Nat) : Option Permissions :=
  (m.view? x).map Prod.snd

/-- A byte permits what its permissions allow. -/
theorem permits_iff {x : Nat} : m.Permits ok x ↔ ∃ p, m.permissions? x = some p ∧ ok p = true := by
  simp only [Permits, permissions?, Option.map_eq_some_iff]
  constructor
  · rintro ⟨c, hc, hok⟩
    exact ⟨c.2, ⟨c, hc, rfl⟩, hok⟩
  · rintro ⟨_, ⟨c, hc, rfl⟩, hok⟩
    exact ⟨c, hc, hok⟩

/-- Obstacles depend on permissions only, not on bytes. -/
theorem ofCell?_congr {c d : Option Cell} (h : c.map Prod.snd = d.map Prod.snd) :
    Obstacle.ofCell? ok c = Obstacle.ofCell? ok d := by
  cases c with
  | none => rw [Option.map_eq_none_iff.mp h.symm]
  | some c =>
    obtain ⟨d, rfl, hd⟩ := Option.map_eq_some_iff.mp h.symm
    simp only [Obstacle.ofCell?, hd]

/-- Checks look at permissions only. -/
theorem accessError?_congr {m' : Memory} (h : m.table.WellFormed) (h' : m'.table.WellFormed)
    (hperm : m'.permissions? = m.permissions?) (access : Access) (enforce : Bool) (a : UInt64)
    (n : Nat) : m'.accessError? access enforce a n = m.accessError? access enforce a n := by
  have hobstacle : ∀ ok, m'.table.obstacle? ok a.toNat n = m.table.obstacle? ok a.toNat n := by
    intro ok
    rw [h.obstacle?_eq, h'.obstacle?_eq, Table.cells, Table.cells, List.findSome?_map,
      List.findSome?_map]
    exact congrArg (List.findSome? · _) (funext fun x => ofCell?_congr (congrFun hperm x))
  simp only [accessError?, hobstacle]

/-- Reads see no cells but those that they may. -/
theorem load_congr_of_permits {m' : Memory} (h : m.table.WellFormed) (h' : m'.table.WellFormed)
    (hperm : m'.permissions? = m.permissions?) (enforce : Bool)
    (hview : ∀ x, m.Permits (fun p => !enforce || p.allows .read) x → m'.view? x = m.view? x)
    (a : UInt64) (n : Nat) : m'.load enforce a n = m.load enforce a n := by
  have herr := accessError?_congr h h' hperm .read enforce a n
  rw [load, load, herr]
  cases hnone : m.accessError? .read enforce a n with
  | some e => rfl
  | none =>
    -- both reads succeed, and gather the bytes of the same cells
    have hall := (accessError?_eq_none_iff h).mp hnone
    have hcells : m'.table.cells a.toNat n = m.table.cells a.toNat n :=
      Table.cells_congr fun x hax hxn => hview x (hall x hax hxn)
    have hmapped := none_not_mem_cells hall
    have hmapped' := none_not_mem_cells ((accessError?_eq_none_iff h').mp (herr.trans hnone))
    have hbytes : (byteList (m'.table.gather a.toNat n)).map some =
        (byteList (m.table.gather a.toNat n)).map some := by
      rw [h.byteList_gather hmapped, h'.byteList_gather hmapped', hcells]
    have hlist : byteList (m'.table.gather a.toNat n) = byteList (m.table.gather a.toNat n) :=
      (List.map_inj_right fun _ _ => Option.some.inj).mp hbytes
    rw [byteList_injective hlist]

/-- Writes end alike wherever permissions are the same, and cells that were the same stay the same. -/
theorem store_congr_of_permissions {m' : Memory} (h : m.table.WellFormed)
    (h' : m'.table.WellFormed) (hperm : m'.permissions? = m.permissions?) (enforce : Bool)
    (a : UInt64) (data : ByteArray) :
    (outcome (store enforce a data) m').1 = (outcome (store enforce a data) m).1 ∧
      ∀ x, m'.view? x = m.view? x → (outcome (store enforce a data) m').2.view? x =
        (outcome (store enforce a data) m).2.view? x := by
  have herr := accessError?_congr h h' hperm .write enforce a data.size
  rw [outcome_store, outcome_store, herr]
  cases hnone : m.accessError? .write enforce a data.size with
  | some e => exact ⟨rfl, fun _ hx => hx⟩
  | none =>
    have hmapped : none ∉ m.table.cells a.toNat (data.size - 0) :=
      none_not_mem_cells ((accessError?_eq_none_iff h).mp hnone)
    have hmapped' : none ∉ m'.table.cells a.toNat (data.size - 0) :=
      none_not_mem_cells ((accessError?_eq_none_iff h').mp (herr.trans hnone))
    refine ⟨rfl, fun x hx => ?_⟩
    show (m'.table.scatter data a.toNat 0).view? x = (m.table.scatter data a.toNat 0).view? x
    rw [h.view?_scatter hmapped, h'.view?_scatter hmapped']
    exact overlay_congr hx _ _

/-- Memories with the same cells are read alike. -/
theorem load_congr {m' : Memory} (h : m.table.WellFormed) (h' : m'.table.WellFormed)
    (hview : m'.view? = m.view?) (enforce : Bool) (a : UInt64) (n : Nat) :
    m'.load enforce a n = m.load enforce a n :=
  load_congr_of_permits h h' (funext fun x => congrArg (Option.map Prod.snd) (congrFun hview x))
    enforce (fun x _ => congrFun hview x) a n

/-- Memories with the same cells are written alike. -/
theorem store_congr {m' : Memory} (h : m.table.WellFormed) (h' : m'.table.WellFormed)
    (hview : m'.view? = m.view?) (enforce : Bool) (a : UInt64) (data : ByteArray) :
    (outcome (store enforce a data) m').1 = (outcome (store enforce a data) m).1 ∧
      (outcome (store enforce a data) m').2.view? = (outcome (store enforce a data) m).2.view? := by
  have hperm : m'.permissions? = m.permissions? :=
    funext fun x => congrArg (Option.map Prod.snd) (congrFun hview x)
  obtain ⟨hval, hcells⟩ := store_congr_of_permissions h h' hperm enforce a data
  exact ⟨hval, funext fun x => hcells x (congrFun hview x)⟩

/-- The greatest address is not mapped, and nothing behind it is. -/
theorem view?_eq_none_of_last (m : Memory) {x : Nat} (hx : UInt64.size ≤ x + 1) : m.view? x = none :=
  List.findSome?_eq_none_iff.mpr fun n _ => Mapping.cell?_eq_none <| Or.inr <|
    Nat.le_of_lt_succ (Nat.lt_of_lt_of_le n.segment.stop.toNat_lt_size hx)

/-- Behind the greatest address nothing is mapped. -/
theorem view?_eq_none_of_size_le (m : Memory) {x : Nat} (hx : UInt64.size ≤ x) : m.view? x = none :=
  m.view?_eq_none_of_last (Nat.le_succ_of_le hx)

/-- **Data accesses.** Reads and writes of reachable address spaces see cells only: they succeed where
    every address of the range permits it, transfer the bytes of the cells, and fail with the error of
    the lowest address that does not permit it.  The division into segments does not matter. -/
theorem dataAccess_view (h : m.Reachable) (a : UInt64) :
    (∀ x, UInt64.size ≤ x → m.view? x = none) ∧
    (∀ n, m.ReadsCells (·.allows .read) a n (m.readBytes a n) ∧
      m.ReadsCells (fun _ => true) a n (m.peek a n)) ∧
    (∀ data, m.WritesCells (·.allows .write) a data (outcome (writeBytes a data) m) ∧
      m.WritesCells (fun _ => true) a data (outcome (poke a data) m)) ∧
    (∀ m' : Memory, m'.Reachable → m'.view? = m.view? →
      (∀ n, m'.readBytes a n = m.readBytes a n ∧ m'.peek a n = m.peek a n) ∧
      ∀ data,
        ((outcome (writeBytes a data) m').1 = (outcome (writeBytes a data) m).1 ∧
          (outcome (writeBytes a data) m').2.view? = (outcome (writeBytes a data) m).2.view?) ∧
        (outcome (poke a data) m').1 = (outcome (poke a data) m).1 ∧
          (outcome (poke a data) m').2.view? = (outcome (poke a data) m).2.view?) ∧
    (∀ w : Width, m.ReadsNumber a w.bytes UInt64.toNat (m.readWord w a)) ∧
    m.ReadsNumber a 16 BitVec.toNat (m.readXmm a) ∧
    (∀ (w : Width) v, ∃ bs, bs.length = w.bytes ∧ LittleEndian.value bs = w.toNat v ∧
      writeWord w a v = writeBytes a (packed bs)) ∧
    ∀ v : BitVec 128, ∃ bs, bs.length = 16 ∧ LittleEndian.value bs = v.toNat ∧
      writeXmm a v = writeBytes a (packed bs) := by
  have hwf := h.wellFormed
  refine ⟨fun x => m.view?_eq_none_of_size_le, fun n => ?_, fun data => ?_, fun m' h' hview => ?_,
    fun w => ?_, ?_, fun w v => ?_, fun v => ?_⟩
  · exact ⟨readsCells_load hwf true a n, readsCells_load hwf false a n⟩
  · exact ⟨writesCells_store hwf true a data, writesCells_store hwf false a data⟩
  -- both memories are described by the same view, which decides all of these
  · have hwf' := h'.wellFormed
    refine ⟨fun n => ⟨load_congr hwf hwf' hview true a n, load_congr hwf hwf' hview false a n⟩,
      fun data => ⟨store_congr hwf hwf' hview true a data, store_congr hwf hwf' hview false a data⟩⟩
  · exact readsNumber_readWord hwf w a
  · exact readsNumber_readXmm hwf a
  · exact ⟨_, LittleEndian.length_bytes _ _, w.value_bytes v, rfl⟩
  -- the number has 128 bits, so none of its sixteen bytes is cut off
  · refine ⟨_, LittleEndian.length_bytes 16 v.toNat, ?_, rfl⟩
    rw [LittleEndian.value_bytes]
    exact Nat.mod_eq_of_lt (Nat.lt_of_lt_of_le v.isLt (by decide))

/-- Two segments side by side, of which only the lower one may be written. -/
def adjacent : Memory :=
  (empty {}).afterCalls
    [.map ⟨0x1000, 0x1002, ⟨true, true, false⟩, 0, "low"⟩ (packed [1, 2]),
      .map ⟨0x1002, 0x1004, ⟨true, false, false⟩, 0, "high"⟩ (packed [3])]

/-- A read across both segments, and a write that fails because of the upper one. -/
theorem dataAccess_view_adjacent :
    adjacent.Reachable ∧
      adjacent.ReadsCells (·.allows .read) 0x1001 2 (.ok (packed [2, 3])) ∧
      (outcome (writeBytes 0x1001 (packed [8, 9])) adjacent).1 = .error (.denied 0x1001 2 .write) ∧
      (outcome (writeBytes 0x1001 (packed [8, 9])) adjacent).2 = adjacent := by
  have h : adjacent.Reachable := ⟨_, _, rfl⟩
  obtain ⟨_, hreads, hwrites, _⟩ := dataAccess_view h 0x1001
  have hread : adjacent.readBytes 0x1001 2 = .ok (packed [2, 3]) := by decide +kernel
  have hwrite : (outcome (writeBytes 0x1001 (packed [8, 9])) adjacent).1 =
      .error (.denied 0x1001 2 .write) := by decide +kernel
  exact ⟨h, hread ▸ (hreads 2).1, hwrite, (hwrites (packed [8, 9])).1.unchanged _ hwrite⟩

end Memory

end Amd64
