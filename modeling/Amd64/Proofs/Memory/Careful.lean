import Amd64.Proofs.Memory.Walks

namespace Amd64

/-!
# Careful accesses

Addresses and lengths are words, whose sums and differences are only what they should be if they fit, and a slice has
to lie inside of the bytes that it is taken from. A careful computation checks this before it adds, subtracts or
slices, and stops if it does not hold. Accesses that are careful in this way stop for no other reason than the errors
that accesses have: in a well-formed table there is always room for what a walk computes.

* `Slip`, `CarefulM`        — what may go wrong besides those errors, and computations that look for it;
* `Careful.plus`, `Careful.minus`, `Careful.slice`, `Careful.fill` — careful arithmetic;
* `Careful.check`, `Careful.copyOut`, `Careful.copyIn`, `Careful.fetch` — careful walks;
* `Careful.mirrored_checkLoop`, … — their turns are those of the walks that are not careful;
* `Careful.outcome_copyOut`, `Careful.outcome_copyIn`, `Careful.outcome_fetch` — so they do what accesses do.
-/

variable {α β : Type}

/-- What may go wrong in a computation besides the errors of an address space. -/
inductive Slip where
  /-- A sum does not fit into 64 bits. -/
  | overflow
  /-- More is subtracted than there is. -/
  | underflow
  /-- A slice is not inside of its bytes, or gets another number of bytes than it has. -/
  | outside
  /-- A byte is not found any more that was found by a check. -/
  | lost
  /-- A walk has more turns than there are bytes. -/
  | endless
  /-- A segment is divided at an address that is not strictly inside. -/
  | notInside
  /-- A range of addresses ends below its start. -/
  | reversed
deriving DecidableEq

/-- Why a computation that checks what it computes stops. -/
inductive Halt where
  | slip (s : Slip)
  | error (e : MemoryError)
deriving DecidableEq

/-- Operations on an address space that check what they compute. -/
abbrev CarefulM := ExceptT Halt (StateM Memory)

namespace Careful

/-- The outcome of a careful computation that ends as another one does with `r`. -/
def unslipped (r : Except MemoryError α × Memory) : Except Halt α × Memory :=
  (r.1.mapError .error, r.2)

/-- What the plain function does is no slip. -/
theorem unslipped_ne_slip (r : Except MemoryError α × Memory) (s : Slip) : (unslipped r).1 ≠ .error (.slip s) := by
  obtain ⟨_ | _, m⟩ := r
  · rintro ⟨⟩
  · rintro ⟨⟩

variable {i j : Nat} {bytes src : ByteArray}

/-- Goes on if the condition holds. -/
def ensure (c : Prop) [Decidable c] (s : Slip) : CarefulM Unit :=
  if c then pure () else throw (.slip s)

/-- Ends with an error of an access. -/
def fail (e : MemoryError) : CarefulM α :=
  throw (.error e)

/-- A sum of 64 bits. -/
def plus (i j : Nat) : CarefulM Nat := do
  ensure (i + j < UInt64.size) .overflow
  return i + j

/-- A difference that is not negative. -/
def minus (i j : Nat) : CarefulM Nat := do
  ensure (j ≤ i) .underflow
  return i - j

/-- The bytes from the position `i` up to `j`. -/
def slice (bytes : ByteArray) (i j : Nat) : CarefulM ByteArray := do
  ensure (i ≤ j ∧ j ≤ bytes.size) .outside
  return bytes.extract i j

/-- Replaces the bytes from the position `i` up to `j` by as many others. -/
def fill (bytes : ByteArray) (i j : Nat) (src : ByteArray) : CarefulM ByteArray := do
  ensure (i ≤ j ∧ j ≤ bytes.size ∧ src.size = j - i) .outside
  return src.copySlice 0 bytes i src.size

/-- A condition that holds is passed. -/
theorem ensure_eq {c : Prop} [Decidable c] (h : c) (s : Slip) : ensure c s = pure () :=
  if_pos h

/-- A sum that fits is computed. -/
theorem plus_eq (h : i + j < UInt64.size) : plus i j = pure (i + j) := by
  rw [plus, ensure_eq h, pure_bind]

/-- A difference that is not negative is computed. -/
theorem minus_eq (h : j ≤ i) : minus i j = pure (i - j) := by
  rw [minus, ensure_eq h, pure_bind]

/-- A slice within its bounds is taken. -/
theorem slice_eq (hij : i ≤ j) (hj : j ≤ bytes.size) : slice bytes i j = pure (bytes.extract i j) := by
  rw [slice, ensure_eq ⟨hij, hj⟩, pure_bind]

/-- A slice of the right length is replaced. -/
theorem fill_eq (hij : i + src.size = j) (hj : j ≤ bytes.size) :
    fill bytes i j src = pure (src.copySlice 0 bytes i src.size) := by
  rw [fill, ensure_eq ⟨by omega, hj, by omega⟩, pure_bind]

/-- The result of a walk, which has to come to its end. -/
def finish (x : CarefulM (Option α)) : CarefulM α := do
  let some v ← x | throw (.slip .endless)
  return v

variable {m : Memory} {a : UInt64}

/-- A walk that mirrors one that comes to its end does so, too. -/
theorem mirrors_finish {l : Loop MemoryError Memory α} {k : Loop Halt Memory β} {R : α → β → Memory → Prop}
    (hk : Loop.Mirrored .error R l k) {n : Nat} {v : α} {w : β} (h : R v w m) {r : Except MemoryError α} {m' : Memory}
    (hplain : outcome (l.within n v) m = (r.map some, m')) :
    Mirrors .error R (r, m') (outcome (finish (k.within n w)) m) := by
  have hboth := hk.within n h
  rw [hplain] at hboth
  rw [finish, outcome_bind]
  generalize outcome (k.within n w) m = q at hboth ⊢
  cases r with
  | error e =>
    cases hboth
    exact .error e m'
  | ok v =>
    rcases hboth with _ | hsome
    rcases hsome with hvw | _
    exact .ok hvw

/-! ### Checks -/

/-- The check of an access. -/
def checkLoop (access : Access) (enforce : Bool) (a : UInt64) (n : Nat) : Loop Halt Memory Memory.CheckCursor where
  goesOn cursor _ := 0 < cursor.left
  turn cursor := do
    let some x := (← get).table.find? cursor.address | fail (.unmapped a (UInt64.ofNat n))
    if enforce && !x.segment.permissions.allows access then fail (.denied a (UInt64.ofNat n) access)
    let room ← minus x.stop cursor.address.toNat
    let rest ← minus cursor.left (min room cursor.left)
    return .yield ⟨if 0 < rest then x.segment.stop else cursor.address, rest⟩

/-- Checks an access to `n` bytes from `a` on. -/
def check (access : Access) (enforce : Bool) (a : UInt64) (n : Nat) : CarefulM Unit :=
  discard (finish ((checkLoop access enforce a n).within n ⟨a, n⟩))

/-- Both checks have come to the same byte. -/
structure Checks (cursor cursor' : Memory.CheckCursor) (m : Memory) : Prop where
  same : cursor' = cursor
  wellFormed : m.table.WellFormed

/-- Every turn of the check is the plain turn, since its sums stay below the size. -/
theorem mirrored_checkLoop (access : Access) (enforce : Bool) (a : UInt64) (n : Nat) :
    Loop.Mirrored .error Checks (Memory.checkLoop access enforce a n) (checkLoop access enforce a n) where
  goesOn cursor _ m h := by rw [h.same]; rfl
  turns cursor _ m h _ := by
    rw [h.same, Memory.outcome_turn_checkLoop]
    simp only [checkLoop, outcome_bind, outcome_get]
    cases hfind : m.table.find? cursor.address with
    | none => exact .error _ m
    | some x =>
      obtain ⟨-, -, hhigh, -⟩ := h.wellFormed.covers_of_find? hfind
      dsimp only
      rw [minus_eq hhigh.le, pure_bind, minus_eq (Nat.min_le_right _ _), pure_bind]
      cases enforce with
      | false => exact .ok (.yield ⟨rfl, h.wellFormed⟩)
      | true =>
        cases hallows : x.segment.permissions.allows access with
        | false => exact .error _ m
        | true => exact .ok (.yield ⟨rfl, h.wellFormed⟩)

/-- A check has the verdict that it should have. -/
theorem outcome_check (h : m.table.WellFormed) (access : Access) (enforce : Bool) (a : UInt64) (n : Nat) :
    outcome (check access enforce a n) m =
      match m.accessError? access enforce a n with
      | none => (.ok (), m)
      | some e => (.error (.error e), m) := by
  obtain ⟨cursor, hplain⟩ := Memory.outcome_within_checkLoop h access enforce a n
  have hresult : outcome ((Memory.checkLoop access enforce a n).within n ⟨a, n⟩) m =
      (Except.map some ((m.accessError? access enforce a n).elim (.ok cursor) .error), m) := by
    rw [hplain]
    cases m.accessError? access enforce a n <;> rfl
  -- the checked walk mirrors the plain one, whose result is known
  have hchecked := mirrors_finish (mirrored_checkLoop access enforce a n) ⟨rfl, h⟩ hresult
  rw [check, outcome_discard]
  generalize outcome (finish ((checkLoop access enforce a n).within n ⟨a, n⟩)) m = q at hchecked ⊢
  cases herror : m.accessError? access enforce a n with
  | none =>
    rw [herror] at hchecked
    cases hchecked
    rfl
  | some e =>
    rw [herror] at hchecked
    cases hchecked
    rfl

/-! ### Transfers -/

/-- Where a transfer from or to one segment takes place. -/
structure Piece where
  /-- It begins at this byte of the segment, -/
  start : Nat
  /-- ends in front of this one, -/
  stop : Nat
  /-- and in front of this one of the buffer. -/
  next : Nat

/-- What the mapping `x` has for a transfer that has come to `address`, and to the position `done` of a buffer of `size`
    bytes. -/
def piece (x : Mapping) (address done size : Nat) : CarefulM Piece := do
  let start ← minus address x.start
  let room ← minus x.bytes.size start
  let left ← minus size done
  let count := min room left
  return ⟨start, ← plus start count, ← plus done count⟩

variable {x : Mapping} {address done size : Nat}

/-- Inside of a mapping no address is beyond 64 bits. The buffer is not longer, since its positions are below the
    addresses. -/
theorem piece_eq (hx : x.Valid) (hlow : x.start ≤ address) (hhigh : address < x.stop) (hdone : done ≤ size)
    (hle : done ≤ address) :
    piece x address done size = pure
      (let start := address - x.start
        let count := min (x.bytes.size - start) (size - done)
        ⟨start, start + count, done + count⟩) := by
  have hsize := hx.size_bytes
  have hstop := x.segment.stop.toNat_lt_size
  have htop : x.stop < UInt64.size := hstop
  rw [piece, minus_eq hlow, pure_bind, minus_eq (by omega), pure_bind, minus_eq hdone, pure_bind]
  dsimp only
  rw [plus_eq (by omega), pure_bind, plus_eq (by omega), pure_bind]

/-- A buffer of which the first `done` bytes are filled. -/
structure Buffer where
  done : Nat
  bytes : ByteArray

/-- What was copied is at the front of the buffer, and the rest of the buffer is as it was. -/
structure Filled (buffer copied : ByteArray) (b : Buffer) : Prop where
  done : b.done = copied.size
  le : copied.size ≤ buffer.size
  bytes : byteList b.bytes = byteList copied ++ (byteList buffer).drop copied.size

variable {buffer copied : ByteArray} {b : Buffer}

/-- The buffer keeps its size. -/
theorem Filled.size_bytes (h : Filled buffer copied b) : b.bytes.size = buffer.size := by
  have hlength := congrArg List.length h.bytes
  have hle := h.le
  simp only [length_byteList, List.length_append, List.length_drop] at hlength
  omega

theorem filled_empty (buffer : ByteArray) : Filled buffer ByteArray.empty ⟨0, buffer⟩ :=
  ⟨rfl, Nat.zero_le _, rfl⟩

/-- A buffer that is full holds what was copied. -/
theorem Filled.eq (h : Filled buffer copied b) (hfull : copied.size = buffer.size) : b.bytes = copied := by
  apply byteList_injective
  have hnothing : (byteList buffer).drop buffer.size = [] := List.drop_eq_nil_of_le (Nat.le_refl _)
  rw [h.bytes, hfull, hnothing, List.append_nil]

/-- The bytes that were copied are in front. -/
theorem Filled.eq_front (h : Filled buffer copied b) :
    b = ⟨copied.size, copied.copySlice 0 buffer 0 copied.size⟩ := by
  have hall : (byteList copied).take copied.size = byteList copied := List.take_of_length_le (Nat.le_refl _)
  have hbytes : b.bytes = copied.copySlice 0 buffer 0 copied.size := byteList_injective <| by
    rw [byteList_copySlice, h.bytes, List.take_zero, List.nil_append, List.drop_zero, hall, Nat.sub_zero, Nat.min_self,
      Nat.zero_add]
  rw [← hbytes, ← h.done]

/-- More is copied behind what was copied before. -/
theorem Filled.append (h : Filled buffer copied b) (hfit : copied.size + src.size ≤ buffer.size) :
    Filled buffer (copied ++ src) ⟨b.done + src.size, src.copySlice 0 b.bytes b.done src.size⟩ := by
  have hall : (byteList src).take src.size = byteList src := List.take_of_length_le (Nat.le_refl _)
  refine ⟨by rw [h.done, ByteArray.size_append], by rwa [ByteArray.size_append], ?_⟩
  rw [byteList_copySlice, h.bytes, h.done, List.take_left' (length_byteList copied), List.drop_zero, hall, Nat.sub_zero,
    Nat.min_self, ← List.drop_drop, List.drop_left' (length_byteList copied), List.drop_drop, byteList_append,
    ByteArray.size_append]

/-- Copies what a mapping has from `address` on behind the bytes that are filled. -/
def Buffer.take (b : Buffer) (x : Mapping) (address : Nat) : CarefulM Buffer := do
  let p ← piece x address b.done b.bytes.size
  let copied ← slice x.bytes p.start p.stop
  return ⟨p.next, ← fill b.bytes b.done p.next copied⟩

/-- **One segment.** The bytes that it has are copied behind the others. -/
theorem Filled.exists_take (hb : Filled buffer copied b) (hx : x.Valid) (hlow : x.start ≤ address)
    (hhigh : address < x.stop) (hle : copied.size ≤ address) :
    ∃ b', b.take x address = pure b' ∧
      Filled buffer (copied ++ x.bytes.extract (address - x.start) (address - x.start +
        min (x.bytes.size - (address - x.start)) (buffer.size - copied.size))) b' := by
  have hsize := hx.size_bytes
  have hroom := hb.le
  obtain ⟨count, hcount⟩ : ∃ count, count = min (x.bytes.size - (address - x.start)) (buffer.size - copied.size) :=
    ⟨_, rfl⟩
  obtain ⟨src, hsrc⟩ : ∃ src, src = x.bytes.extract (address - x.start) (address - x.start + count) := ⟨_, rfl⟩
  have htaken : src.size = count := by
    rw [hsrc, ByteArray.size_extract]
    omega
  refine ⟨⟨copied.size + count, src.copySlice 0 b.bytes copied.size count⟩, ?_, ?_⟩
  · rw [Buffer.take, hb.done, hb.size_bytes, piece_eq hx hlow hhigh hb.le hle, pure_bind]
    dsimp only
    rw [← hcount, slice_eq (Nat.le_add_right ..) (by omega), pure_bind, ← hsrc,
      fill_eq (by omega) (by rw [hb.size_bytes]; omega), pure_bind, htaken]
  · have hfilled : Filled buffer (copied ++ src) _ := hb.append (by omega)
    rw [hb.done, htaken] at hfilled
    rwa [← hcount, ← hsrc]

/-! ### Reads -/

/-- Copies bytes from `a` on to a buffer. -/
def copyOutLoop (a : UInt64) : Loop Halt Memory Buffer where
  goesOn b _ := b.done < b.bytes.size
  turn b := do
    let address ← plus a.toNat b.done
    let some x := (← get).table.find? (UInt64.ofNat address) | throw (.slip .lost)
    return .yield (← b.take x address)

/-- Copies bytes from `a` on to a buffer, after a check. -/
def copyOut (enforce : Bool) (a : UInt64) (buffer : ByteArray) : CarefulM ByteArray := do
  check .read enforce a buffer.size
  let b ← finish ((copyOutLoop a).within buffer.size ⟨0, buffer⟩)
  return b.bytes

/-- No address of a range that has passed its check is beyond 64 bits. -/
theorem plus_eq_of_permits {ok : Permissions → Bool} {n k : Nat}
    (hpermits : ∀ x, a.toNat ≤ x → x < a.toNat + n → m.Permits ok x) (hk : k < n) :
    plus a.toNat k = pure (a + UInt64.ofNat k).toNat := by
  have haddress := Memory.toNat_add_of_lt hpermits hk
  have hword := (a + UInt64.ofNat k).toNat_lt_size
  rw [haddress] at hword ⊢
  exact plus_eq hword

/-- A read to a buffer that has passed its check. -/
structure CopiesOut (ok : Permissions → Bool) (a : UInt64) (buffer copied : ByteArray) (b : Buffer) (m : Memory) :
    Prop extends Filled buffer copied b where
  wellFormed : m.table.WellFormed
  permits : ∀ x, a.toNat ≤ x → x < a.toNat + buffer.size → m.Permits ok x

/-- Every turn of a copy out of memory is the plain turn. -/
theorem mirrored_copyOutLoop (ok : Permissions → Bool) (a : UInt64) (buffer : ByteArray) :
    Loop.Mirrored .error (CopiesOut ok a buffer) (Memory.copyOutLoop a buffer.size) (copyOutLoop a) where
  goesOn copied b m hb := by
    show decide (b.done < b.bytes.size) = decide (copied.size < buffer.size)
    rw [hb.done, hb.size_bytes]
  turns copied b m hb hgoesOn := by
    have hmore : copied.size < buffer.size := of_decide_eq_true hgoesOn
    have haddress := Memory.toNat_add_of_lt hb.permits hmore
    rw [Memory.outcome_turn_copyOutLoop]
    simp only [copyOutLoop, hb.done, plus_eq_of_permits hb.permits hmore, pure_bind, outcome_bind, outcome_get,
      UInt64.ofNat_toNat]
    cases hfind : m.table.find? (a + UInt64.ofNat copied.size) with
    | none => exact absurd hfind (Memory.find?_ne_none hb.permits hmore hb.wellFormed)
    | some x =>
      obtain ⟨hx, hlow, hhigh, -⟩ := hb.wellFormed.covers_of_find? hfind
      obtain ⟨b', htake, hb'⟩ := hb.exists_take (hb.wellFormed.valid x hx) hlow hhigh (by omega)
      dsimp only
      rw [htake, pure_bind]
      exact .ok (.yield ⟨hb', hb.wellFormed, hb.permits⟩)

/-- **Reads.** They do not slip, and fill the buffer with the bytes that are read. -/
theorem outcome_copyOut (h : m.table.WellFormed) (enforce : Bool) (a : UInt64) (buffer : ByteArray) :
    outcome (copyOut enforce a buffer) m = unslipped (m.load enforce a buffer.size, m) := by
  rw [copyOut, outcome_bind, outcome_check h]
  cases herror : m.accessError? .read enforce a buffer.size with
  | some e =>
    rw [Memory.load, herror]
    rfl
  | none =>
    have hload : m.load enforce a buffer.size = .ok (m.table.gather a.toNat buffer.size) := by
      rw [Memory.load, herror]
    have hpermits := (Memory.accessError?_eq_none_iff h).mp herror
    have hcopied := mirrors_finish (mirrored_copyOutLoop _ a buffer) ⟨filled_empty buffer, h, hpermits⟩
      (r := .ok _) (Memory.outcome_within_copyOutLoop h hpermits)
    dsimp only
    rw [outcome_bind, hload]
    generalize outcome (finish ((copyOutLoop a).within buffer.size ⟨0, buffer⟩)) m = q at hcopied ⊢
    rcases hcopied with _ | hb
    dsimp only
    rw [hb.eq (Memory.length_of_load h hload)]
    rfl

/-! ### Writes -/

/-- Replaces the table. -/
def modifyTable (f : Table → Table) : CarefulM Unit :=
  modify fun | ⟨window, table⟩ => ⟨window, f table⟩

@[simp] theorem outcome_modifyTable (f : Table → Table) (m : Memory) :
    outcome (modifyTable f) m = (.ok (), ⟨m.window, f m.table⟩) := rfl

/-- Replaces the bytes from `a` on by those of `data`, of which some were written before. -/
def copyInLoop (a : UInt64) (data : ByteArray) : Loop Halt Memory Nat where
  goesOn done _ := done < data.size
  turn done := do
    let address ← plus a.toNat done
    let some x := (← get).table.find? (UInt64.ofNat address) | throw (.slip .lost)
    let p ← piece x address done data.size
    let bytes ← fill x.bytes p.start p.stop (← slice data done p.next)
    modifyTable (Table.insert ⟨x.segment, bytes⟩)
    return .yield p.next

/-- Replaces the bytes from `a` on by those of `data`, after a check. -/
def copyIn (enforce : Bool) (a : UInt64) (data : ByteArray) : CarefulM Unit := do
  check .write enforce a data.size
  discard (finish ((copyInLoop a data).within data.size 0))

/-- To copy a slice is to copy this part. -/
theorem copySlice_extract (src dst : ByteArray) (i j n : Nat) :
    (src.extract i (i + n)).copySlice 0 dst j n = src.copySlice i dst j n := by
  apply byteList_injective
  rw [byteList_copySlice, byteList_copySlice, byteList_extract, ByteArray.size_extract, List.drop_zero,
    Nat.add_sub_cancel_left, List.take_take, Nat.min_self]
  congr 2
  omega

/-- A write that has passed its check. -/
structure CopiesIn (ok : Permissions → Bool) (a : UInt64) (data : ByteArray) (written done : Nat) (m : Memory) : Prop
    where
  done : done = written
  wellFormed : m.table.WellFormed
  permits : ∀ x, a.toNat ≤ x → x < a.toNat + data.size → m.Permits ok x

/-- Every turn of a copy into memory is the plain turn. -/
theorem mirrored_copyInLoop (ok : Permissions → Bool) (a : UInt64) (data : ByteArray) :
    Loop.Mirrored .error (CopiesIn ok a data) (Memory.copyInLoop a data) (copyInLoop a data) where
  goesOn written done m hd := by rw [hd.done]; rfl
  turns written done m hd hgoesOn := by
    have hmore : written < data.size := of_decide_eq_true hgoesOn
    have haddress := Memory.toNat_add_of_lt hd.permits hmore
    rw [Memory.outcome_turn_copyInLoop]
    simp only [copyInLoop, hd.done, plus_eq_of_permits hd.permits hmore, pure_bind, outcome_bind, outcome_get,
      UInt64.ofNat_toNat]
    cases hfind : m.table.find? (a + UInt64.ofNat written) with
    -- an address that may be accessed lies in some segment
    | none => exact absurd hfind (Memory.find?_ne_none hd.permits hmore hd.wellFormed)
    | some x =>
      obtain ⟨hx, hlow, hhigh, hsize⟩ := hd.wellFormed.covers_of_find? hfind
      rw [haddress] at hlow hhigh
      obtain ⟨count, hcount⟩ : ∃ count, count =
        min (x.bytes.size - (a.toNat + written - x.start)) (data.size - written) := ⟨_, rfl⟩
      have hhere : a.toNat + written + count ≤ x.stop := by omega
      have htaken : written + count ≤ data.size := by omega
      have hsrc : (data.extract written (written + count)).size = count := by
        rw [ByteArray.size_extract]
        omega
      dsimp only
      -- from here on every checked step has its bound in the context
      rw [haddress, piece_eq (hd.wellFormed.valid x hx) hlow hhigh hmore.le (Nat.le_add_left _ _), pure_bind]
      dsimp only
      rw [← hcount, slice_eq (Nat.le_add_right ..) htaken, pure_bind, fill_eq (by omega) (by omega), pure_bind, hsrc,
        copySlice_extract]
      obtain ⟨hwf, -, hview⟩ := hd.wellFormed.insert_overwrite hx hlow hhere htaken
      have hlaid : Memory.view? ⟨m.window, _⟩ = overlay m.view? _ _ := hview
      exact .ok (.yield ⟨rfl, hwf, fun y hay hy => (Memory.permits_of_overlay hlaid ok y).mpr (hd.permits y hay hy)⟩)

/-- **Writes.** They do not slip, and do what writes do. -/
theorem outcome_copyIn (h : m.table.WellFormed) (enforce : Bool) (a : UInt64) (data : ByteArray) :
    outcome (copyIn enforce a data) m = unslipped (outcome (Memory.store enforce a data) m) := by
  rw [copyIn, outcome_bind, outcome_check h]
  cases herror : m.accessError? .write enforce a data.size with
  | some e =>
    rw [Memory.outcome_store, herror]
    rfl
  | none =>
    have hpermits := (Memory.accessError?_eq_none_iff h).mp herror
    obtain ⟨m', hplain, hstored⟩ := Memory.outcome_within_copyInLoop h hpermits
    have hwritten := mirrors_finish (mirrored_copyInLoop _ a data) ⟨rfl, h, hpermits⟩ (r := .ok data.size) hplain
    dsimp only
    rw [outcome_discard, hstored]
    generalize outcome (finish ((copyInLoop a data).within data.size 0)) m = q at hwritten ⊢
    cases hwritten
    rfl

/-! ### Fetches -/

/-- Addresses are added up without a carry if they are below the end. -/
theorem ofNat_toNat_add (a : UInt64) (k : Nat) : UInt64.ofNat (a.toNat + k) = a + UInt64.ofNat k := by
  rw [UInt64.ofNat_add, UInt64.ofNat_toNat]

/-- Copies code from `a` on to a buffer, as far as it may be executed. -/
def fetchLoop (a : UInt64) : Loop Halt Memory Buffer where
  goesOn b _ := b.done < b.bytes.size
  turn b := do
    -- whether there is such an address is asked outright
    if UInt64.size ≤ a.toNat + b.done then return .done b
    let address := a.toNat + b.done
    let some x := (← get).table.find? (UInt64.ofNat address) | return .done b
    if !x.segment.permissions.execute then
      if b.done = 0 then fail (.denied a 1 .execute)
      return .done b
    return .yield (← b.take x address)

/-- Fetches code to a buffer. -/
def fetch (a : UInt64) (buffer : ByteArray) : CarefulM Buffer := do
  let b ← finish ((fetchLoop a).within buffer.size ⟨0, buffer⟩)
  if b.done = 0 && buffer.size ≠ 0 then fail (.unmapped a 1)
  return b

/-- A fetch to a buffer. -/
structure Fetches (buffer copied : ByteArray) (b : Buffer) (m : Memory) : Prop extends Filled buffer copied b where
  wellFormed : m.table.WellFormed

/-- Every turn of a fetch is the plain turn. -/
theorem mirrored_fetchLoop (a : UInt64) (buffer : ByteArray) :
    Loop.Mirrored .error (Fetches buffer) (Memory.fetchLoop a buffer.size) (fetchLoop a) where
  goesOn copied b m hb := by
    show decide (b.done < b.bytes.size) = decide (copied.size < buffer.size)
    rw [hb.done, hb.size_bytes]
  turns copied b m hb _ := by
    rw [Memory.outcome_turn_fetchLoop]
    simp only [fetchLoop, hb.done, ofNat_toNat_add]
    split
    · exact .ok (.done hb)
    · next hwithin =>
      -- the address has not wrapped, so the segment search sees the sum
      have haddress := Memory.toNat_add_ofNat (Nat.not_le.mp hwithin)
      simp only [outcome_bind, outcome_get]
      cases hfind : m.table.find? (a + UInt64.ofNat copied.size) with
      | none => exact .ok (.done hb)
      | some x =>
        obtain ⟨hx, hlow, hhigh, -⟩ := hb.wellFormed.covers_of_find? hfind
        rw [haddress] at hlow hhigh
        obtain ⟨b', htake, hb'⟩ := hb.exists_take (hb.wellFormed.valid x hx) hlow hhigh (Nat.le_add_left _ _)
        dsimp only
        cases hexecute : x.segment.permissions.execute with
        | true =>
          rw [if_pos rfl, htake]
          exact .ok (.yield ⟨hb', hb.wellFormed⟩)
        | false =>
          -- a run that cannot start is an error, one that has started just ends
          by_cases hfirst : copied.size = 0
          · simp only [hfirst, Bool.false_eq_true, ↓reduceIte, Bool.not_false]
            exact .error _ m
          · simp only [hfirst, Bool.false_eq_true, ↓reduceIte, Bool.not_false]
            exact .ok (.done hb)

/-- **Fetches.** They do not slip, and copy the code that is fetched to the front of the buffer. -/
theorem outcome_fetch (h : m.table.WellFormed) (a : UInt64) (buffer : ByteArray) :
    outcome (fetch a buffer) m =
      unslipped ((m.fetch a buffer.size).map fun bs => ⟨bs.size, bs.copySlice 0 buffer 0 bs.size⟩, m) := by
  obtain ⟨r, hplain, hfetch⟩ := Memory.exists_within_fetchLoop h a buffer.size
  have hcopied := mirrors_finish (mirrored_fetchLoop a buffer) ⟨filled_empty buffer, h⟩ hplain
  rw [fetch, outcome_bind, hfetch]
  generalize outcome (finish ((fetchLoop a).within buffer.size ⟨0, buffer⟩)) m = q at hcopied ⊢
  cases hcopied with
  | error e => rfl
  | @ok copied b _ hb =>
    simp only [hb.done, Except.bind]
    by_cases hnothing : copied.size = 0 ∧ buffer.size ≠ 0
    · have htest : (decide (copied.size = 0) && decide (buffer.size ≠ 0)) = true := by simpa using hnothing
      rw [if_pos htest, if_pos hnothing]
      rfl
    · have htest : ¬ (decide (copied.size = 0) && decide (buffer.size ≠ 0)) = true := by simpa using hnothing
      rw [if_neg htest, if_neg hnothing, hb.eq_front]
      rfl

end Careful
end Amd64
