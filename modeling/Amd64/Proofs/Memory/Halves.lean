import Amd64.Proofs.Memory.Pieces

namespace Amd64

/-!
# Numbers of 256 bits in two halves

A number of 256 bits is transferred as two numbers of 128 bits, the lower one first.  Each half is an access of
its own, with a check of its own.

* `LittleEndian.bytes_halves`  — the digits of a number of 256 bits are those of its halves;
* `Memory.readYmm`, `Memory.writeYmm` — both halves, one after the other;
* `Memory.ReadsYmm`, `Memory.WritesYmm` — what they do, said by cells;
* `Memory.readsYmm`            — a read of both halves is one read;
* `Memory.writesYmm`           — a write of both halves is one write if it succeeds.  If it fails because of the
  upper half the lower one is written.
-/

/-! ### Digits -/

namespace LittleEndian

/-- Digits do not depend on what is above them. -/
theorem bytes_mod (n v : Nat) : bytes n (v % 256 ^ n) = bytes n v := by
  have hdigits := bytes_value (bytes n v)
  rwa [length_bytes, value_bytes] at hdigits

/-- The lowest digits of 256 bits are those of the lower half. -/
theorem bytes_low (v : BitVec 256) : bytes 16 (v.extractLsb' 0 128).toNat = bytes 16 v.toNat := by
  have hpow : (256 : Nat) ^ 16 = 2 ^ 128 := by norm_num
  rw [BitVec.extractLsb'_toNat, Nat.shiftRight_zero, ← hpow, bytes_mod]

/-- The digits of 256 bits are those of both halves. -/
theorem bytes_halves (v : BitVec 256) :
    bytes 32 v.toNat =
      bytes 16 (v.extractLsb' 0 128).toNat ++ bytes 16 (v.extractLsb' 128 128).toNat := by
  have hpow : (256 : Nat) ^ 16 = 2 ^ 128 := by norm_num
  have hhigh : (v.extractLsb' 128 128).toNat = v.toNat / 256 ^ 16 % 256 ^ 16 := by
    rw [BitVec.extractLsb'_toNat, Nat.shiftRight_eq_div_pow, hpow]
  rw [bytes_low, hhigh, bytes_mod]
  exact bytes_add 16 16 v.toNat

end LittleEndian

namespace Memory

variable {m : Memory} {a : UInt64} {ok : Permissions → Bool}

/-! ### Halves side by side -/

/-- The upper half begins sixteen bytes behind the lower one. -/
theorem toNat_upper (h : ∀ x, a.toNat ≤ x → x < a.toNat + 16 → m.Permits ok x) :
    (a + 16).toNat = a.toNat + 16 :=
  toNat_add_of_last (k := 15) (h _ (Nat.le_add_right ..) (by omega))

/-- A range of 32 bytes may be used if both halves may. -/
theorem permits_halves_iff :
    (∀ x, a.toNat ≤ x → x < a.toNat + 32 → m.Permits ok x) ↔
      (∀ x, a.toNat ≤ x → x < a.toNat + 16 → m.Permits ok x) ∧
        ∀ x, (a + 16).toNat ≤ x → x < (a + 16).toNat + 16 → m.Permits ok x := by
  constructor
  · intro hall
    have hlow : ∀ x, a.toNat ≤ x → x < a.toNat + 16 → m.Permits ok x :=
      fun x hax hx => hall x hax (by omega)
    refine ⟨hlow, fun x hax hx => ?_⟩
    rw [toNat_upper hlow] at hax hx
    exact hall x (by omega) (by omega)
  · rintro ⟨hlow, hhigh⟩ x hax hx
    rw [toNat_upper hlow] at hhigh
    by_cases hx16 : x < a.toNat + 16
    · exact hlow x hax hx16
    · exact hhigh x (Nat.not_lt.mp hx16) (by omega)

/-! ### Reads -/

/-- The 256-bit number at `a`, from both of its halves. -/
def readYmm (m : Memory) (a : UInt64) : Except MemoryError (BitVec 256) := do
  let low ← m.readXmm a
  let high ← m.readXmm (a + 16)
  return high ++ low

/-- What a read of 256 bits from `a` on does. -/
structure ReadsYmm (m : Memory) (a : UInt64) (result : Except MemoryError (BitVec 256)) : Prop where
  /-- It succeeds if and only if each of 32 bytes may be read. -/
  isOk_iff : (∃ v, result = .ok v) ↔
    ∀ x, a.toNat ≤ x → x < a.toNat + 32 → m.Permits (·.allows .read) x
  /-- It yields the number with these bytes. -/
  bytes : ∀ v, result = .ok v → (LittleEndian.bytes 32 v.toNat).map some =
    (List.range' a.toNat 32).map fun x => (m.view? x).map Prod.fst

/-- A half is read if each of its bytes may be. -/
theorem isOk_readXmm_iff (h : m.table.WellFormed) :
    (∃ v, m.readXmm a = .ok v) ↔
      ∀ x, a.toNat ≤ x → x < a.toNat + 16 → m.Permits (·.allows .read) x := by
  have hbytes := (readsCells_load h true a 16).isOk_iff
  have hnumber := readsNumber_readXmm h a
  apply Iff.trans _ hbytes
  apply Iff.intro
  · rintro ⟨v, hv⟩
    obtain ⟨bs, hbs, -⟩ := (hnumber.ok_iff v).mp hv
    exact ⟨bs, hbs⟩
  · rintro ⟨bs, hbs⟩
    cases hread : m.readXmm a with
    | ok v => exact ⟨v, rfl⟩
    | error e =>
      have hfails := (hnumber.error_iff e).mp hread
      rw [readBytes, hbs] at hfails
      cases hfails

/-- A half has the bytes of its cells. -/
theorem bytes_readXmm (h : m.table.WellFormed) {v : BitVec 128} (hv : m.readXmm a = .ok v) :
    (LittleEndian.bytes 16 v.toNat).map some =
      (List.range' a.toNat 16).map fun x => (m.view? x).map Prod.fst := by
  obtain ⟨bs, hbs, hvalue⟩ := ((readsNumber_readXmm h a).ok_iff v).mp hv
  have hdigits := LittleEndian.bytes_value (byteList bs)
  rw [length_of_load h hbs] at hdigits
  rw [hvalue, littleEndian, hdigits]
  exact (readsCells_load h true a 16).bytes bs hbs

/-- **Reads.** Both halves are read as one number. -/
theorem readsYmm (h : m.table.WellFormed) (a : UInt64) : m.ReadsYmm a (m.readYmm a) := by
  constructor
  case isOk_iff =>
    rw [permits_halves_iff, ← isOk_readXmm_iff h, ← isOk_readXmm_iff h]
    constructor
    · rintro ⟨v, hv⟩
      obtain ⟨low, hlow, hrest⟩ := bind_eq_ok_iff.mp hv
      obtain ⟨high, hhigh, -⟩ := bind_eq_ok_iff.mp hrest
      exact ⟨⟨low, hlow⟩, high, hhigh⟩
    · rintro ⟨⟨low, hlow⟩, high, hhigh⟩
      exact ⟨_, bind_eq_ok_iff.mpr ⟨low, hlow, bind_eq_ok_iff.mpr ⟨high, hhigh, rfl⟩⟩⟩
  case bytes =>
    intro v hv
    obtain ⟨low, hlow, hrest⟩ := bind_eq_ok_iff.mp hv
    obtain ⟨high, hhigh, hwhole⟩ := bind_eq_ok_iff.mp hrest
    obtain rfl : high ++ low = v := Except.ok.inj hwhole
    have hupper := toNat_upper ((isOk_readXmm_iff h).mp ⟨low, hlow⟩)
    have hbelow : (high ++ low).extractLsb' 0 128 = low := BitVec.extractLsb'_append_eq_right
    have habove : (high ++ low).extractLsb' 128 128 = high := BitVec.extractLsb'_append_eq_left
    rw [LittleEndian.bytes_halves, hbelow, habove, List.map_append, bytes_readXmm h hlow,
      bytes_readXmm h hhigh, hupper, ← List.map_append, List.range'_append_1]

/-! ### Writes -/

/-- Writes a 256-bit number at `a`, the lower half first. -/
def writeYmm (a : UInt64) (v : BitVec 256) : MemoryM Unit := do
  writeXmm a (v.extractLsb' 0 128)
  writeXmm (a + 16) (v.extractLsb' 128 128)

/-- What a write of 256 bits from `a` on does. -/
structure WritesYmm (m : Memory) (a : UInt64) (v : BitVec 256)
    (result : Except MemoryError Unit × Memory) : Prop where
  /-- It succeeds if and only if each of 32 bytes may be written. -/
  isOk_iff : result.1 = .ok () ↔
    ∀ x, a.toNat ≤ x → x < a.toNat + 32 → m.Permits (·.allows .write) x
  /-- These bytes are replaced. -/
  written : result.1 = .ok () →
    result.2.view? = overlay m.view? a.toNat (LittleEndian.bytes 32 v.toNat)
  /-- If it fails because of the lower half nothing changes. -/
  refused : (¬ ∀ x, a.toNat ≤ x → x < a.toNat + 16 → m.Permits (·.allows .write) x) → result.2 = m
  /-- If it fails because of the upper half only, the lower one is replaced. -/
  halfway : result.1 ≠ .ok () →
    (∀ x, a.toNat ≤ x → x < a.toNat + 16 → m.Permits (·.allows .write) x) →
      result.2.view? = overlay m.view? a.toNat (LittleEndian.bytes 16 v.toNat)
  /-- The segments stay. -/
  segments : result.2.segments = m.segments ∧ result.2.window = m.window

/-- What a write of a half does to the cells. -/
theorem writesCells_writeXmm (h : m.table.WellFormed) (v : BitVec 128) :
    ((outcome (writeXmm a v) m).1 = .ok () ↔
      ∀ x, a.toNat ≤ x → x < a.toNat + 16 → m.Permits (·.allows .write) x) ∧
    ∀ e, (outcome (writeXmm a v) m).1 = .error e → (outcome (writeXmm a v) m).2 = m := by
  have hspec := writesCells_store h true a (packed (LittleEndian.bytes 16 v.toNat))
  have hsize : (packed (LittleEndian.bytes 16 v.toNat)).size = 16 := by
    rw [← length_byteList, byteList_packed, LittleEndian.length_bytes]
  have hok := hspec.isOk_iff
  rw [hsize] at hok
  exact ⟨hok, hspec.unchanged⟩

/-- A half that may not be written is left, and so is everything else. -/
theorem exists_writeXmm_refused (h : m.table.WellFormed) (v : BitVec 128)
    (hno : ¬ ∀ x, a.toNat ≤ x → x < a.toNat + 16 → m.Permits (·.allows .write) x) :
    ∃ e, outcome (writeXmm a v) m = (.error e, m) := by
  obtain ⟨hok, hkept⟩ := writesCells_writeXmm h v (a := a)
  cases hresult : (outcome (writeXmm a v) m).1 with
  | ok u => exact absurd (hok.mp hresult) hno
  | error e => exact ⟨e, Prod.ext hresult (hkept e hresult)⟩

/-- A half that may be written lies over the cells then. -/
theorem exists_writeXmm (h : m.table.WellFormed) (v : BitVec 128)
    (hall : ∀ x, a.toNat ≤ x → x < a.toNat + 16 → m.Permits (·.allows .write) x) :
    ∃ m', outcome (writeXmm a v) m = (.ok (), m') ∧ m'.table.WellFormed ∧
      m'.window = m.window ∧ m'.segments = m.segments ∧
      m'.view? = overlay m.view? a.toNat (LittleEndian.bytes 16 v.toNat) := by
  obtain ⟨hok, -⟩ := writesCells_writeXmm h v (a := a)
  obtain ⟨m', hm'⟩ : ∃ m', outcome (writeXmm a v) m = (.ok (), m') :=
    ⟨_, Prod.ext (hok.mpr hall) rfl⟩
  obtain ⟨-, hwf, hwindow, hsegments, hview⟩ := (store_eq_ok_iff h).mp hm'
  rw [byteList_packed] at hview
  exact ⟨m', hm', hwf, hwindow, hsegments, hview⟩

/-- What a write does that fails at the lower half. -/
theorem writesYmm_of_refused (h : m.table.WellFormed) (v : BitVec 256)
    (hlow : ¬ ∀ x, a.toNat ≤ x → x < a.toNat + 16 → m.Permits (·.allows .write) x) :
    m.WritesYmm a v (outcome (writeYmm a v) m) := by
  obtain ⟨e, hfirst⟩ := exists_writeXmm_refused h (v.extractLsb' 0 128) hlow
  rw [writeYmm, outcome_bind, hfirst]
  constructor
  case isOk_iff => exact ⟨nofun, fun hall => absurd (permits_halves_iff.mp hall).1 hlow⟩
  case written => exact nofun
  case refused => exact fun _ => rfl
  case halfway => exact fun _ hyes => absurd hyes hlow
  case segments => exact ⟨rfl, rfl⟩

/-- What a write does that fails at the upper half: the lower one is written in `m'`. -/
theorem writesYmm_of_halfway {m' : Memory} {v : BitVec 256} {e : MemoryError}
    (hlow : ∀ x, a.toNat ≤ x → x < a.toNat + 16 → m.Permits (·.allows .write) x)
    (hhigh : ¬ ∀ x, (a + 16).toNat ≤ x → x < (a + 16).toNat + 16 → m.Permits (·.allows .write) x)
    (hwindow : m'.window = m.window) (hsegments : m'.segments = m.segments)
    (hview : m'.view? =
      overlay m.view? a.toNat (LittleEndian.bytes 16 (v.extractLsb' 0 128).toNat)) :
    m.WritesYmm a v (.error e, m') := by
  constructor
  case isOk_iff => exact ⟨nofun, fun hall => absurd (permits_halves_iff.mp hall).2 hhigh⟩
  case written => exact nofun
  case refused => exact fun hno => absurd hlow hno
  case halfway =>
    intro _ _
    rw [← LittleEndian.bytes_low]
    exact hview
  case segments => exact ⟨hsegments, hwindow⟩

/-- What a write does that succeeds: the upper half is written behind the lower one. -/
theorem writesYmm_of_written {m' : Memory} {v : BitVec 256}
    (hall : ∀ x, a.toNat ≤ x → x < a.toNat + 32 → m.Permits (·.allows .write) x)
    (hwindow : m'.window = m.window) (hsegments : m'.segments = m.segments)
    (hview : m'.view? = overlay
      (overlay m.view? a.toNat (LittleEndian.bytes 16 (v.extractLsb' 0 128).toNat))
      (a + 16).toNat (LittleEndian.bytes 16 (v.extractLsb' 128 128).toNat)) :
    m.WritesYmm a v (.ok (), m') := by
  obtain ⟨hlow, -⟩ := permits_halves_iff.mp hall
  constructor
  case isOk_iff => exact ⟨fun _ => hall, fun _ => rfl⟩
  case written =>
    intro _
    have hbehind := overlay_append m.view? a.toNat
      (LittleEndian.bytes 16 (v.extractLsb' 0 128).toNat)
      (LittleEndian.bytes 16 (v.extractLsb' 128 128).toNat)
    rw [LittleEndian.length_bytes, ← toNat_upper hlow] at hbehind
    rw [LittleEndian.bytes_halves, hbehind]
    exact hview
  case refused => exact fun hno => absurd hlow hno
  case halfway => exact fun hno => absurd rfl hno
  case segments => exact ⟨hsegments, hwindow⟩

/-- **Writes.** The halves are written one after the other, each as a whole or not at all. -/
theorem writesYmm (h : m.table.WellFormed) (a : UInt64) (v : BitVec 256) :
    m.WritesYmm a v (outcome (writeYmm a v) m) := by
  by_cases hlow : ∀ x, a.toNat ≤ x → x < a.toNat + 16 → m.Permits (·.allows .write) x
  · obtain ⟨m₁, hfirst, hwf₁, hwindow₁, hsegments₁, hview₁⟩ :=
      exists_writeXmm h (v.extractLsb' 0 128) hlow
    -- the upper half may be written after the lower one if it could be before
    have hpermits := permits_of_overlay hview₁ (·.allows .write)
    rw [writeYmm, outcome_bind, hfirst]
    dsimp only
    by_cases hhigh : ∀ x, (a + 16).toNat ≤ x → x < (a + 16).toNat + 16 →
        m.Permits (·.allows .write) x
    · obtain ⟨m₂, hsecond, -, hwindow₂, hsegments₂, hview₂⟩ :=
        exists_writeXmm hwf₁ (v.extractLsb' 128 128) fun x hax hx => (hpermits x).mpr (hhigh x hax hx)
      rw [hsecond]
      refine writesYmm_of_written (permits_halves_iff.mpr ⟨hlow, hhigh⟩) (hwindow₂.trans hwindow₁)
        (hsegments₂.trans hsegments₁) ?_
      rw [hview₂, hview₁]
    · obtain ⟨e, hsecond⟩ := exists_writeXmm_refused hwf₁ (v.extractLsb' 128 128) fun hall =>
        hhigh fun x hax hx => (hpermits x).mp (hall x hax hx)
      rw [hsecond]
      exact writesYmm_of_halfway hlow hhigh hwindow₁ hsegments₁ hview₁
  · exact writesYmm_of_refused h v hlow

end Memory

end Amd64
