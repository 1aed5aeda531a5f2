import Amd64.Machine.Bus
import Amd64.Proofs.Memory.Ranges

namespace Amd64

/-!
# Runs of bytes, one byte at a time

A bus that has no better way transfers a run of bytes one byte at a time, at addresses that wrap around, and stops at
the first byte that fails. An address space checks the whole run first. Both fail at the same byte, since the
greatest address is never mapped: no run goes on behind it.

* `Bytewise`                     — an address space as such a bus;
* `Memory.readBytewise`, `Memory.writeBytewise` — its reads and writes;
* `MemoryError.ofRange`          — the same error of an access to another range;
* `Memory.FirstOffense.tail`     — the byte that fails first, seen from the second byte on;
* `Memory.outcome_readEach`, `Memory.outcome_readEach_of_firstOffense` — reads one byte at a time;
* `Memory.exists_writeEach`, `Memory.exists_writeEach_of_firstOffense` — writes one byte at a time;
* `Memory.ReadsAlike`, `Memory.WritesAlike` — how accesses one byte at a time and at once compare;
* `Memory.bytewise_agrees`       — they do in every reachable address space.
-/

/-- An address space that transfers runs of bytes as a bus does that has no better way. -/
def Bytewise := Memory

/-- Single bytes are the accesses of the memory; longer ones are made of them. -/
instance : Bus Bytewise where
  readWord := (Bus.readWord : Width → UInt64 → BusM Memory UInt64)
  readXmm := (Bus.readXmm : UInt64 → BusM Memory (BitVec 128))
  writeWord := (Bus.writeWord : Width → UInt64 → UInt64 → BusM Memory Unit)
  writeXmm := (Bus.writeXmm : UInt64 → BitVec 128 → BusM Memory Unit)
  fetch := (Bus.fetch : UInt64 → Nat → BusM Memory ByteArray)

namespace Memory

/-- Reads a run of bytes one at a time. -/
def readBytewise (a : UInt64) (n : Nat) : MemoryM ByteArray :=
  (Bus.readBytes a n : BusM Bytewise ByteArray)

/-- Writes a run of bytes one at a time. -/
def writeBytewise (a : UInt64) (data : ByteArray) : MemoryM Unit :=
  (Bus.writeBytes a data : BusM Bytewise Unit)

end Memory

/-- The same error of an access to `n` bytes from `a` on. -/
def MemoryError.ofRange (a n : UInt64) : MemoryError → MemoryError
  | unmapped _ _ => unmapped a n
  | denied _ _ access => denied a n access
  | e => e

namespace Memory

variable {m : Memory} {ok : Permissions → Bool} {a : UInt64} {n b : Nat}

/-! ### The byte that fails first -/

/-- The error of a range names the range and the kind of the first byte that fails. -/
theorem ofRange_offenseError (m : Memory) (access : Access) (a : UInt64) (n b : Nat) (a' n' : UInt64) :
    (m.offenseError access a n b).ofRange a' n' =
      if (m.view? b).isSome then .denied a' n' access else .unmapped a' n' := by
  unfold offenseError
  split <;> rfl

/-- Behind a first byte that is permitted, the same byte is the first that is not. -/
theorem FirstOffense.tail {a : Nat} (h : m.FirstOffense ok a (n + 1) b) (hfirst : m.Permits ok a) :
    m.FirstOffense ok (a + 1) n b := by
  have hle := h.le
  have hlt := h.lt
  have hne : a ≠ b := fun heq => h.offends (heq ▸ hfirst)
  exact ⟨by omega, by omega, h.offends, fun x hax hxb => h.permits x (by omega) hxb⟩

/-! ### Reads -/

/-- One byte and then the others. -/
theorem outcome_readEach_succ (h : m.table.WellFormed) (a : UInt64) (n : Nat) :
    outcome (readEach (Bus.readWord .w8) (n + 1) a) m =
      match m.byte? a.toNat with
      | some x => ((outcome (readEach (Bus.readWord .w8) n (a + 1)) m).1.map (x :: ·),
          (outcome (readEach (Bus.readWord .w8) n (a + 1)) m).2)
      | none => (.error (m.offenseError .read a 1 a.toNat), m) := by
  have hone : outcome (Bus.readWord .w8 a : BusM Memory UInt64) m = (m.readWord .w8 a, m) := rfl
  rw [readEach, outcome_bind, hone, readWord_w8 h]
  cases m.byte? a.toNat with
  | none => rfl
  | some x =>
    dsimp only
    rw [outcome_bind, UInt8.toUInt8_toUInt64]
    rcases outcome (readEach (Bus.readWord .w8) n (a + 1)) m with ⟨_ | _, _⟩ <;> rfl

/-- **Reads that succeed.** All bytes that may be read are read. -/
theorem outcome_readEach (h : m.table.WellFormed) {xs : List UInt8} (hbytes : m.HoldsBytes a.toNat n xs) :
    outcome (readEach (Bus.readWord .w8) n a) m = (.ok xs, m) := by
  induction n generalizing a xs with
  | zero =>
    obtain rfl := List.eq_nil_of_length_eq_zero hbytes.length
    rfl
  | succ n ih =>
    obtain ⟨x, xs, rfl⟩ := List.exists_cons_of_length_eq_add_one hbytes.length
    rw [HoldsBytes, List.range'_succ, List.map_cons, List.map_cons, List.cons.injEq] at hbytes
    obtain ⟨hx, hxs⟩ := hbytes
    rw [← toNat_add_one hx.symm] at hxs
    rw [outcome_readEach_succ h, ← hx, ih hxs]
    rfl

/-- **Reads that fail.** The error is that of the first byte that may not be read. -/
theorem outcome_readEach_of_firstOffense (h : m.table.WellFormed)
    (hb : m.FirstOffense (·.allows .read) a.toNat n b) :
    outcome (readEach (Bus.readWord .w8) n a) m = (.error (m.offenseError .read (UInt64.ofNat b) 1 b), m) := by
  induction n generalizing a with
  | zero => exact absurd hb.lt (Nat.not_lt.mpr hb.le)
  | succ n ih =>
    rw [outcome_readEach_succ h]
    cases hx : m.byte? a.toNat with
    | none =>
      -- this is the byte that fails
      have hfirst := not_permits_of_byte? hx
      obtain rfl : b = a.toNat := Nat.le_antisymm (Nat.not_lt.mp fun hlt => hfirst (hb.permits _ le_rfl hlt)) hb.le
      rw [UInt64.ofNat_toNat]
    | some x =>
      have htail := hb.tail (permits_of_byte? hx)
      rw [← toNat_add_one hx] at htail
      rw [ih htail]
      rfl

/-! ### Writes -/

/-- What is mapped stays mapped. -/
theorem Overlaid.isSome_view? {m' : Memory} {a : Nat} {xs : List UInt8} (h : m.Overlaid m' a xs) (x : Nat) :
    (m'.view? x).isSome = (m.view? x).isSome := by
  have hsame := congrArg Option.isSome (congrFun h.permissions x)
  rwa [permissions?, permissions?, Option.isSome_map, Option.isSome_map] at hsame

/-- A byte is written as a run of one byte. -/
theorem writeWord_toUInt64 (a : UInt64) (x : UInt8) : writeWord .w8 a x.toUInt64 = store true a (packed [x]) := by
  have hdigits : LittleEndian.bytes 1 x.toUInt64.toNat = [x] := by
    rw [UInt8.toNat_toUInt64, LittleEndian.bytes, UInt8.ofNat_toNat]
    rfl
  show store true a (packed (LittleEndian.bytes 1 x.toUInt64.toNat)) = _
  rw [hdigits]

/-- The bytes before one that fails stay written. -/
theorem outcome_writeEach_cons (x : UInt8) (xs : List UInt8) (a : UInt64) (m : Memory) :
    outcome (writeEach (Bus.writeWord .w8) (x :: xs) a) m =
      match outcome (store true a (packed [x])) m with
      | (.ok _, m') => outcome (writeEach (Bus.writeWord .w8) xs (a + 1)) m'
      | (.error e, m') => (.error e, m') := by
  have hone : outcome (Bus.writeWord .w8 a x.toUInt64 : BusM Memory Unit) m =
      outcome (store true a (packed [x])) m := by
    rw [← writeWord_toUInt64]
    rfl
  rw [writeEach, outcome_bind, hone]
  rcases outcome (store true a (packed [x])) m with ⟨_ | _, _⟩ <;> rfl

/-- **Bytes in front.** Where they may be written, they are laid over the memory, and the others are written behind
    them. -/
theorem exists_writeEach (h : m.table.WellFormed) {xs : List UInt8} (hpermits : m.AllPermit .write a.toNat xs.length)
    (ys : List UInt8) :
    ∃ m', m'.table.WellFormed ∧ m.Overlaid m' a.toNat xs ∧
      outcome (writeEach (Bus.writeWord .w8) (xs ++ ys) a) m =
        outcome (writeEach (Bus.writeWord .w8) ys (a + UInt64.ofNat xs.length)) m' := by
  -- on the bytes; the first of them is stored alone, and its neighbour is still permitted afterwards
  induction xs generalizing a m with
  | nil =>
    refine ⟨m, h, overlaid_nil m _, ?_⟩
    rw [List.nil_append, List.length_nil, show a + UInt64.ofNat 0 = a from UInt64.add_zero a]
  | cons x xs ih =>
    rw [List.length_cons] at hpermits
    obtain ⟨hone, hrest⟩ := (allPermit_iff_parts (show 1 ≤ xs.length + 1 by omega)).mp hpermits
    have hnext : (a + 1).toNat = a.toNat + 1 := hone.toNat_add Nat.one_pos
    rw [Nat.add_sub_cancel] at hrest
    obtain ⟨m₁, hstore, hwf₁, -, hlaid₁⟩ | ⟨e, -, hno⟩ := store_cases h a _ (byteList_packed [x])
    · have hrest₁ := hlaid₁.allPermit_iff.mpr hrest
      rw [← hnext] at hrest₁
      obtain ⟨m', hwf, hlaid, hlater⟩ := ih hwf₁ hrest₁
      rw [hnext] at hlaid
      refine ⟨m', hwf, hlaid₁.append hlaid, ?_⟩
      have haddress : a + 1 + UInt64.ofNat xs.length = a + UInt64.ofNat (xs.length + 1) := by
        rw [Nat.add_comm xs.length, UInt64.ofNat_add, ← UInt64.add_assoc]
        rfl
      rw [List.cons_append, outcome_writeEach_cons, hstore]
      dsimp only
      rw [hlater, haddress, List.length_cons]
    -- a permitted byte is never refused
    · exact absurd hone hno

/-- **Writes that fail.** The bytes in front of the first one that may not be written are written, and the error is
    that of this byte. -/
theorem exists_writeEach_of_firstOffense (h : m.table.WellFormed) {xs : List UInt8}
    (hb : m.FirstOffense (·.allows .write) a.toNat xs.length b) :
    ∃ m', m'.table.WellFormed ∧ m.Overlaid m' a.toNat (xs.take (b - a.toNat)) ∧
      outcome (writeEach (Bus.writeWord .w8) xs a) m =
        (.error (m.offenseError .write (UInt64.ofNat b) 1 b), m') := by
  have hle := hb.le
  have hlt := hb.lt
  obtain ⟨k, rfl⟩ := Nat.exists_eq_add_of_le hle
  rw [Nat.add_sub_cancel_left]
  have hlength : (xs.take k).length = k := by rw [List.length_take]; omega
  obtain ⟨y, ys, hrest⟩ := List.exists_cons_of_length_pos (l := xs.drop k) (by rw [List.length_drop]; omega)
  have hfront : m.AllPermit .write a.toNat (xs.take k).length := fun x hax hx => hb.permits x hax (by omega)
  obtain ⟨m', hwf, hlaid, hlater⟩ := exists_writeEach h hfront (xs.drop k)
  have haddress : (a + UInt64.ofNat k).toNat = a.toNat + k := by
    obtain rfl | hk := Nat.eq_zero_or_pos k
    · rw [show a + UInt64.ofNat 0 = a from UInt64.add_zero a, Nat.add_zero]
    · rw [hlength] at hfront
      exact hfront.toNat_add hk
  -- the byte still fails, and with the error that it would have had before
  have hoffends : m'.FirstOffense (·.allows .write) (a + UInt64.ofNat k).toNat (packed [y]).size (a.toNat + k) := by
    rw [haddress]
    exact ⟨le_rfl, Nat.lt_succ_self _, fun hp => hb.offends ((permits_of_overlay hlaid.view _ _).mp hp),
      fun x hx hxb => by omega⟩
  have hspec := writesCells_store hwf true (a + UInt64.ofNat k) (packed [y])
  have herror := (hspec.error_iff _).mpr ⟨_, hoffends, rfl⟩
  have hfails : outcome (store true (a + UInt64.ofNat k) (packed [y])) m' = (.error _, m') :=
    Prod.ext herror (hspec.unchanged _ herror)
  refine ⟨m', hwf, hlaid, ?_⟩
  rw [List.take_append_drop, hlength, hrest, outcome_writeEach_cons, hfails] at hlater
  rw [hlater, offenseError, offenseError, hlaid.isSome_view?, ← haddress, UInt64.ofNat_toNat]
  rfl

/-! ### Accesses at once and one byte at a time -/

/-- How a read one byte at a time compares with a read at once. -/
structure ReadsAlike (m : Memory) (a : UInt64) (n : Nat) (each : Except MemoryError ByteArray × Memory)
    (whole : Except MemoryError ByteArray) : Prop where
  isOk_iff : (∃ bs, each.1 = .ok bs) ↔ ∃ bs, whole = .ok bs
  contents : ∀ bs bs', each.1 = .ok bs → whole = .ok bs' → bs = bs'
  /-- The error is the same, of an access to the first byte that may not be read. -/
  error : ∀ e e', each.1 = .error e → whole = .error e' →
    ∃ b, m.FirstOffense (·.allows .read) a.toNat n b ∧ e = e'.ofRange (UInt64.ofNat b) 1
  unchanged : each.2 = m

/-- How a write one byte at a time compares with a write at once. -/
structure WritesAlike (m : Memory) (a : UInt64) (bs : List UInt8) (each whole : Except MemoryError Unit × Memory) :
    Prop where
  isOk_iff : each.1 = .ok () ↔ whole.1 = .ok ()
  memory : each.1 = .ok () → each.2 = whole.2
  /-- The error is the same, of an access to the first byte that may not be written. The bytes in front of it are
      written one at a time, and none is at once. -/
  error : ∀ e e', each.1 = .error e → whole.1 = .error e' →
    ∃ b, m.FirstOffense (·.allows .write) a.toNat bs.length b ∧ e = e'.ofRange (UInt64.ofNat b) 1 ∧
      m.Overlaid each.2 a.toNat (bs.take (b - a.toNat)) ∧ whole.2 = m

/-- The loop over bytes, with the result packed. -/
theorem outcome_readBytewise (a : UInt64) (n : Nat) (m : Memory) :
    outcome (readBytewise a n) m =
      ((outcome (readEach (Bus.readWord .w8) n a) m).1.map packed,
        (outcome (readEach (Bus.readWord .w8) n a) m).2) :=
  outcome_mapResult m packed (readEach (Bus.readWord .w8 : UInt64 → BusM Memory UInt64) n a)

/-- The loop over bytes. -/
theorem outcome_writeBytewise (a : UInt64) (data : ByteArray) (m : Memory) :
    outcome (writeBytewise a data) m = outcome (writeEach (Bus.writeWord .w8) (byteList data) a) m := rfl

/-- Reads byte by byte agree with reads of the range but for the error, which names the byte. -/
theorem readsAlike_readBytewise (h : m.table.WellFormed) (a : UInt64) (n : Nat) :
    m.ReadsAlike a n (outcome (readBytewise a n) m) (m.readBytes a n) := by
  rw [outcome_readBytewise]
  obtain ⟨data, hload, -, hdata⟩ | ⟨e, hload, hno⟩ := load_cases h a n
  · have hwhole : m.readBytes a n = .ok data := hload
    rw [outcome_readEach h hdata, hwhole]
    refine ⟨iff_of_true ⟨_, rfl⟩ ⟨_, rfl⟩, fun bs bs' hbs hbs' => ?_, fun e e' he => ?_, rfl⟩
    · cases hbs
      cases hbs'
      exact byteList_injective (byteList_packed _)
    · cases he
  · have hwhole : m.readBytes a n = .error e := hload
    obtain ⟨b, hb, rfl⟩ := ((readsCells_load h true a n).error_iff e).mp hload
    rw [outcome_readEach_of_firstOffense h hb, hwhole]
    refine ⟨iff_of_false (fun ⟨_, hbs⟩ => ?_) (fun ⟨_, hbs⟩ => ?_), fun bs bs' hbs => ?_, fun e e' he he' => ?_, rfl⟩
    · cases hbs
    · cases hbs
    · cases hbs
    · cases he
      cases he'
      exact ⟨b, hb, (ofRange_offenseError ..).symm⟩

/-- Writes byte by byte agree with writes of the range but for the error and what it leaves behind. -/
theorem writesAlike_writeBytewise (h : m.table.WellFormed) (a : UInt64) (data : ByteArray) :
    m.WritesAlike a (byteList data) (outcome (writeBytewise a data) m) (outcome (writeBytes a data) m) := by
  rw [outcome_writeBytewise]
  obtain ⟨m', hstore, hwf, hpermits, hlaid⟩ | ⟨e, hstore, hno⟩ := store_cases h a data rfl
  · have hwhole : outcome (writeBytes a data) m = (.ok (), m') := hstore
    obtain ⟨m₁, hwf₁, hlaid₁, heach⟩ := exists_writeEach h hpermits []
    -- both writers overlay the same bytes on the same cells, so they leave the same memory
    have hsame : m₁ = m' :=
      ext_view hwf hwf₁ (hlaid₁.window.trans hlaid.window.symm) (hlaid₁.segments.trans hlaid.segments.symm)
        (hlaid₁.view.trans hlaid.view.symm)
    have hdone : outcome (writeEach (Bus.writeWord .w8) (byteList data) a) m = (.ok (), m') := by
      rw [List.append_nil] at heach
      rw [heach, hsame]
      rfl
    rw [hdone, hwhole]
    refine ⟨Iff.rfl, fun _ => rfl, fun e e' he => ?_⟩
    cases he
  · have hwhole : outcome (writeBytes a data) m = (.error e, m) := hstore
    -- the first refused byte is the one at which the byte writer stops
    obtain ⟨b, hb, rfl⟩ := ((writesCells_store h true a data).error_iff e).mp (congrArg Prod.fst hstore)
    have hbytes : m.FirstOffense (·.allows .write) a.toNat (byteList data).length b := hb
    obtain ⟨m', -, hlaid, heach⟩ := exists_writeEach_of_firstOffense h hbytes
    rw [heach, hwhole]
    refine ⟨iff_of_false (fun hok => ?_) (fun hok => ?_), fun hok => ?_, fun e e' he he' => ?_⟩
    · cases hok
    · cases hok
    · cases hok
    · cases he
      cases he'
      exact ⟨b, hb, (ofRange_offenseError ..).symm, hlaid, rfl⟩

/-- **Runs of bytes.** In a reachable address space, reads and writes one byte at a time succeed where those at once
    do, and transfer the same bytes. They fail with the same error, which is that of the first byte that may not be
    used. A write at once changes nothing then, and one byte at a time it leaves the bytes in front of this byte. -/
theorem bytewise_agrees (h : m.Reachable) (a : UInt64) :
    (∀ n, m.ReadsAlike a n (outcome (readBytewise a n) m) (m.readBytes a n)) ∧
      ∀ data, m.WritesAlike a (byteList data) (outcome (writeBytewise a data) m) (outcome (writeBytes a data) m) :=
  ⟨readsAlike_readBytewise h.wellFormed a, writesAlike_writeBytewise h.wellFormed a⟩

/-- A segment that ends at the greatest address. -/
def highest : Memory :=
  (empty {}).afterCalls [.map ⟨0xfffffffffffffffc, 0xffffffffffffffff, .readWrite, 0, "top"⟩ (packed [1, 2, 3])]

/-- Where a run goes beyond the greatest address, both kinds of accesses fail at this address. One byte at a time, the
    three bytes below it are written. -/
theorem bytewise_agrees_wrapping :
    highest.Reachable ∧
      highest.ReadsAlike 0xfffffffffffffffc 6 (.error (.unmapped 0xffffffffffffffff 1), highest)
        (.error (.unmapped 0xfffffffffffffffc 6)) ∧
      (outcome (writeBytes 0xfffffffffffffffc (packed [4, 5, 6, 7, 8])) highest).1 =
        .error (.unmapped 0xfffffffffffffffc 5) ∧
      (outcome (writeBytes 0xfffffffffffffffc (packed [4, 5, 6, 7, 8])) highest).2 = highest ∧
      (outcome (writeBytewise 0xfffffffffffffffc (packed [4, 5, 6, 7, 8])) highest).1 =
        .error (.unmapped 0xffffffffffffffff 1) ∧
      highest.Overlaid (outcome (writeBytewise 0xfffffffffffffffc (packed [4, 5, 6, 7, 8])) highest).2
        0xfffffffffffffffc [4, 5, 6] := by
  have h : highest.Reachable := ⟨_, _, rfl⟩
  have hread : highest.readBytes 0xfffffffffffffffc 6 = .error (.unmapped 0xfffffffffffffffc 6) := by decide +kernel
  have heach : (outcome (readBytewise 0xfffffffffffffffc 6) highest).1 = .error (.unmapped 0xffffffffffffffff 1) := by
    decide +kernel
  have hwrite : (outcome (writeBytes 0xfffffffffffffffc (packed [4, 5, 6, 7, 8])) highest).1 =
      .error (.unmapped 0xfffffffffffffffc 5) := by decide +kernel
  have hbytewise : (outcome (writeBytewise 0xfffffffffffffffc (packed [4, 5, 6, 7, 8])) highest).1 =
      .error (.unmapped 0xffffffffffffffff 1) := by decide +kernel
  obtain ⟨hreads, hwrites⟩ := bytewise_agrees h 0xfffffffffffffffc
  have hreadsAlike := hreads 6
  rw [hread, show outcome (readBytewise 0xfffffffffffffffc 6) highest = (_, highest) from
    Prod.ext heach hreadsAlike.unchanged] at hreadsAlike
  obtain ⟨b, hb, hsame, hlaid, hunchanged⟩ := (hwrites (packed [4, 5, 6, 7, 8])).error _ _ hbytewise hwrite
  -- the byte that fails is the one at the greatest address
  have haddress : UInt64.ofNat b = 0xffffffffffffffff := (MemoryError.unmapped.inj hsame).1.symm
  have hvalue := congrArg UInt64.toNat haddress
  have hlow := hb.le
  have hhigh := hb.lt
  simp only [UInt64.toNat_ofNat', UInt64.reduceToNat, byteList_packed, List.length_cons, List.length_nil]
    at hvalue hlow hhigh
  obtain rfl : b = 0xffffffffffffffff := by omega
  exact ⟨h, hreadsAlike, hwrite, hunchanged, hbytewise, hlaid⟩

end Memory

end Amd64
