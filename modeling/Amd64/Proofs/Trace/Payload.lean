import Amd64.Proofs.LittleEndian
import Amd64.Proofs.Outcome
import Amd64.Trace.Reader

namespace Amd64

/-!
# Payloads and their readers

A reader of fields accepts certain bytes and yields a value for them.  Each reader is described by the
values and the bytes that belong together, and it reads exactly these: on a payload that starts with such
bytes it yields the value and leaves what is behind them, and on no other payload it succeeds.

* `PayloadState.Took`      — bytes were read from the front of a payload;
* `PayloadReader.Reads`    — a reader and the pairs of values and bytes that it stands for;
* `PayloadReader.reads_bind`, `PayloadReader.reads_ite`, … — readers that are put together;
* `PayloadReader.reads_string`, `PayloadReader.reads_snapshot`, … — readers of fields undo their writers;
* `Record.Canonical`       — the records that a reader yields;
* `Record.reads_read`      — so do readers of records.
-/

namespace LittleEndian

/-- A number of `n` digits and its digits. -/
theorem eq_bytes_iff {n v : Nat} {bs : List UInt8} :
    v < 256 ^ n ∧ bs = bytes n v ↔ bs.length = n ∧ v = value bs := by
  constructor
  · rintro ⟨hv, rfl⟩
    exact ⟨length_bytes n v, by rw [value_bytes, Nat.mod_eq_of_lt hv]⟩
  · rintro ⟨rfl, rfl⟩
    exact ⟨value_lt bs, (bytes_value bs).symm⟩

end LittleEndian

namespace Field

/-- A string that is written: its size, then its bytes. -/
theorem string_eq_ok_iff {s : Option String} {bs : List UInt8} :
    string s = .ok bs ↔ (byteList (s.getD "").toUTF8).length < UInt16.size ∧
      bs = LittleEndian.bytes 2 (byteList (s.getD "").toUTF8).length
        ++ byteList (s.getD "").toUTF8 :=
  ite_ok_eq_ok_iff

/-- An array that is written: its size, then its bytes. -/
theorem array_eq_ok_iff {data : Option (List UInt8)} {bs : List UInt8} :
    array data = .ok bs ↔ (data.getD []).length < UInt32.size ∧
      bs = LittleEndian.bytes 4 (data.getD []).length ++ data.getD [] :=
  ite_ok_eq_ok_iff

/-- Strings are told apart by their bytes. -/
theorem byteList_toUTF8_injective {s t : String} (h : byteList s.toUTF8 = byteList t.toUTF8) :
    s = t :=
  String.toByteArray_inj.mp (byteList_injective h)

/-- Among strings as they are read, only an absent one has no bytes. -/
theorem eq_none_iff {s : Option String} :
    s = none ↔ s ≠ some "" ∧ [] = byteList (s.getD "").toUTF8 := by
  cases s with
  | none => exact ⟨fun _ => ⟨nofun, rfl⟩, fun _ => rfl⟩
  | some t =>
    refine ⟨nofun, fun ⟨hne, hbytes⟩ => ?_⟩
    exact absurd (congrArg some (byteList_toUTF8_injective hbytes.symm)) hne

/-- Among strings as they are read, the others are determined by their bytes. -/
theorem eq_some_iff {s : Option String} {t : String} (ht : t ≠ "") :
    s = some t ↔ s ≠ some "" ∧ byteList t.toUTF8 = byteList (s.getD "").toUTF8 := by
  cases s with
  | none =>
    refine ⟨nofun, fun ⟨_, hbytes⟩ => ?_⟩
    exact absurd (byteList_toUTF8_injective hbytes) ht
  | some u =>
    constructor
    · intro h
      obtain rfl := Option.some.inj h
      exact ⟨fun h => ht (Option.some.inj h), rfl⟩
    · rintro ⟨-, hbytes⟩
      exact congrArg some (byteList_toUTF8_injective hbytes).symm

/-- A string as it is read: one that is written like an absent one is absent. -/
def normalize (s : Option String) : Option String :=
  s.filter (· ≠ "")

/-- A string that was read is absent or not empty. -/
theorem normalize_ne (s : Option String) : normalize s ≠ some "" := by
  simp [normalize]

/-- Only an empty string is changed. -/
theorem normalize_eq_self {s : Option String} (h : s ≠ some "") : normalize s = s := by
  cases s <;> simp_all [normalize]

/-- An absent string and an empty one stand for the same. -/
theorem getD_normalize (s : Option String) : (normalize s).getD "" = s.getD "" := by
  cases s with
  | none => rfl
  | some t => by_cases h : t = "" <;> simp [normalize, Option.filter, h]

/-- An absent string and an empty one are written in the same way. -/
theorem string_normalize (s : Option String) : string (normalize s) = string s := by
  rw [string, getD_normalize]
  rfl

/-- A string is decoded from its bytes and from no others. -/
theorem decodeString_eq_ok_iff {bytes : List UInt8} {s : String} :
    decodeString bytes = .ok s ↔ bytes = byteList s.toUTF8 := by
  have hpacked : packed bytes = s.toUTF8 ↔ bytes = byteList s.toUTF8 := by
    constructor
    · intro h
      rw [← h, byteList_packed]
    · intro h
      exact byteList_injective (by rw [byteList_packed, h])
  rw [decodeString, ← hpacked]
  -- a byte string that is not valid text is the encoding of none
  by_cases hvalid : (packed bytes).IsValidUTF8
  · have hsome : String.fromUTF8? (packed bytes) = some (String.fromUTF8 (packed bytes) hvalid) :=
      dif_pos hvalid
    simp only [hsome, Except.ok.injEq]
    constructor
    · rintro rfl
      rfl
    · intro h
      exact String.toByteArray_inj.mp h
  · have hnone : String.fromUTF8? (packed bytes) = none := dif_neg hvalid
    simp only [hnone, reduceCtorEq, false_iff]
    intro h
    exact hvalid (h ▸ s.isValidUTF8)

end Field

namespace PayloadState

/-- The bytes `bs` were read in front of what `q` has left. -/
structure Took (p : PayloadState) (bs : List UInt8) (q : PayloadState) : Prop where
  rest : p.rest = bs ++ q.rest
  remaining : p.remaining = bs.length + q.remaining
  consumed : q.consumed = p.consumed + bs.length

variable {p q r : PayloadState} {bs cs : List UInt8}

theorem took_nil_iff : p.Took [] q ↔ p = q := by
  constructor
  · rintro ⟨hrest, hremaining, hconsumed⟩
    obtain ⟨rest, remaining, consumed⟩ := p
    obtain ⟨rest', remaining', consumed'⟩ := q
    simp_all
  · rintro rfl
    exact ⟨rfl, (Nat.zero_add _).symm, rfl⟩

/-- What was taken in two parts. -/
theorem Took.trans (h : p.Took bs q) (h' : q.Took cs r) : p.Took (bs ++ cs) r := by
  refine ⟨?_, ?_, ?_⟩
  · rw [h.rest, h'.rest, List.append_assoc]
  · rw [h.remaining, h'.remaining, List.length_append, Nat.add_assoc]
  · rw [h'.consumed, h.consumed, List.length_append, Nat.add_assoc]

/-- Bytes that were read together could have been read one part after the other. -/
theorem Took.split (h : p.Took (bs ++ cs) r) : ∃ q, p.Took bs q ∧ q.Took cs r := by
  obtain ⟨hrest, hremaining, hconsumed⟩ := h
  rw [List.length_append] at hremaining hconsumed
  refine ⟨⟨cs ++ r.rest, cs.length + r.remaining, p.consumed + bs.length⟩, ⟨?_, ?_, rfl⟩,
    rfl, rfl, ?_⟩
  · rw [hrest, List.append_assoc]
  · rw [hremaining, Nat.add_assoc]
  · rw [hconsumed, Nat.add_assoc]

end PayloadState

namespace PayloadReader

/-- The reader yields `v` and leaves `q` exactly where bytes that belong to `v` lie in front of `q`. -/
def Reads {α : Type} (x : PayloadReader α) (E : α → List UInt8 → Prop) : Prop :=
  ∀ p v q, outcome x p = (.ok v, q) ↔ ∃ bs, E v bs ∧ p.Took bs q

section
variable {α β : Type} {x y : PayloadReader α} {E F : α → List UInt8 → Prop}

theorem Reads.congr (h : Reads x E) (hE : ∀ v bs, E v bs ↔ F v bs) : Reads x F := by
  intro p v q
  rw [h p v q]
  exact exists_congr fun bs => and_congr_left fun _ => hE v bs

theorem reads_pure (v : α) : Reads (pure v) fun w bs => w = v ∧ bs = [] := by
  intro p w q
  constructor
  · intro h
    obtain ⟨hv, rfl⟩ := Prod.mk.inj h
    exact ⟨[], ⟨(Except.ok.inj hv).symm, rfl⟩, PayloadState.took_nil_iff.mpr rfl⟩
  · rintro ⟨_, ⟨rfl, rfl⟩, htook⟩
    rw [PayloadState.took_nil_iff.mp htook, outcome_pure]

theorem reads_throw (e : PayloadError) : Reads (throw e : PayloadReader α) fun _ _ => False := by
  intro p v q
  constructor
  · intro h
    have herror : Except.error e = .ok v := (Prod.mk.inj h).1
    contradiction
  · rintro ⟨_, hfalse, _⟩
    exact hfalse.elim

/-- Parts are encoded one behind the other. -/
theorem reads_bind {f : α → PayloadReader β} {F : α → β → List UInt8 → Prop} (hx : Reads x E)
    (hf : ∀ v, Reads (f v) (F v)) :
    Reads (x >>= f) fun w bs => ∃ v as cs, E v as ∧ F v w cs ∧ bs = as ++ cs := by
  intro p w r
  rw [outcome_bind_eq_ok_iff]
  constructor
  · rintro ⟨v, q, hfirst, hsecond⟩
    obtain ⟨as, hE, hfirst⟩ := (hx p v q).mp hfirst
    obtain ⟨cs, hF, hsecond⟩ := (hf v q w r).mp hsecond
    exact ⟨as ++ cs, ⟨v, as, cs, hE, hF, rfl⟩, hfirst.trans hsecond⟩
  · rintro ⟨_, ⟨v, as, cs, hE, hF, rfl⟩, htook⟩
    obtain ⟨q, hfirst, hsecond⟩ := htook.split
    exact ⟨v, q, (hx p v q).mpr ⟨as, hE, hfirst⟩, (hf v q w r).mpr ⟨cs, hF, hsecond⟩⟩

/-- What is computed from a value is encoded like it. -/
theorem reads_return (g : α → β) (hx : Reads x E) :
    Reads (do return g (← x)) fun w bs => ∃ v, E v bs ∧ w = g v := by
  refine (reads_bind hx fun v => reads_pure (g v)).congr fun w bs => ?_
  constructor
  · rintro ⟨v, as, _, hE, ⟨rfl, rfl⟩, rfl⟩
    rw [List.append_nil]
    exact ⟨v, hE, rfl⟩
  · rintro ⟨v, hE, rfl⟩
    exact ⟨v, bs, [], hE, ⟨rfl, rfl⟩, (List.append_nil bs).symm⟩

/-- A reader whose value is checked before the next one goes on. -/
theorem reads_ite {c : Prop} [Decidable c] (hx : c → Reads x E) (hy : ¬c → Reads y E) :
    Reads (if c then x else y) E := by
  split
  · next h => exact hx h
  · next h => exact hy h

/-- A reader that goes on only if there is no problem. -/
theorem reads_when {c : Prop} [Decidable c] {problem : FieldProblem} {f : Unit → PayloadReader α}
    (hx : Reads x E) :
    Reads (if c then corrupt problem >>= f else x) fun v bs => ¬c ∧ E v bs := by
  refine reads_ite (fun hc => ?_) fun hc => ?_
  · have hstop : (corrupt problem >>= f) = throw (.failed (.corrupt problem)) := rfl
    rw [hstop]
    exact (reads_throw _).congr fun v bs => ⟨False.elim, fun h => h.1 hc⟩
  · exact hx.congr fun v bs => (and_iff_right hc).symm

/-- A reader that goes on only if a condition holds. -/
theorem reads_unless {c : Prop} [Decidable c] {problem : FieldProblem} {f : Unit → PayloadReader α}
    (hx : Reads x E) :
    Reads (if c then x else corrupt problem >>= f) fun v bs => c ∧ E v bs := by
  rw [← ite_not]
  exact (reads_when hx).congr fun v bs => and_congr_left fun _ => not_not

end

/-! ### Fields -/

/-- Bytes are taken from what is left of the payload; where there are too few of them, it matters whether the
payload or the stream ends first. -/
theorem outcome_take (n : Nat) (p : PayloadState) :
    outcome (take n) p =
      let taken := p.rest.take (min n p.remaining)
      (if taken.length = n then .ok taken
        else if p.remaining - taken.length = 0 then .error (.overrun (p.consumed + n))
        else .error (.failed .unexpectedEnd),
        ⟨p.rest.drop (min n p.remaining), p.remaining - taken.length, p.consumed + taken.length⟩) := by
  simp only [outcome, take, ExceptT.mk, ExceptT.run, StateT.run, List.splitAt_eq]
  split
  · rfl
  · split <;> rfl

/-- Enough bytes are there. -/
theorem outcome_take_of_le {n : Nat} {p : PayloadState} (hremaining : n ≤ p.remaining)
    (hrest : n ≤ p.rest.length) :
    outcome (take n) p =
      (.ok (p.rest.take n), ⟨p.rest.drop n, p.remaining - n, p.consumed + n⟩) := by
  have hmin : min n p.remaining = n := Nat.min_eq_left hremaining
  have hlength : (p.rest.take n).length = n := List.length_take_of_le hrest
  simp only [outcome_take, hmin, hlength, if_true]

/-- Reading `n` bytes fails where they are missing. -/
theorem le_of_outcome_take {n : Nat} {p q : PayloadState} {v : List UInt8}
    (h : outcome (take n) p = (.ok v, q)) : n ≤ p.remaining ∧ n ≤ p.rest.length := by
  by_contra hmissing
  have hlength : (p.rest.take (min n p.remaining)).length ≠ n := by
    rw [List.length_take]
    omega
  simp only [outcome_take, if_neg hlength] at h
  split at h <;> cases h

/-- The next `n` bytes. -/
theorem reads_take (n : Nat) : Reads (take n) fun v bs => v = bs ∧ bs.length = n := by
  intro p v q
  constructor
  · intro h
    obtain ⟨hremaining, hrest⟩ := le_of_outcome_take h
    rw [outcome_take_of_le hremaining hrest] at h
    obtain ⟨hv, rfl⟩ := Prod.mk.inj h
    have hlength : (p.rest.take n).length = n := List.length_take_of_le hrest
    refine ⟨p.rest.take n, ⟨(Except.ok.inj hv).symm, hlength⟩, ?_, ?_, ?_⟩
    · exact (List.take_append_drop n p.rest).symm
    · rw [hlength, Nat.add_sub_cancel' hremaining]
    · rw [hlength]
  · rintro ⟨bs, ⟨rfl, rfl⟩, hrest, hremaining, hconsumed⟩
    rw [outcome_take_of_le (by omega) (by simp [hrest])]
    obtain ⟨rest, remaining, consumed⟩ := q
    simp_all

/-- The number in the next `n` bytes. -/
theorem reads_number (n : Nat) :
    Reads (number n) fun v bs => v < 256 ^ n ∧ bs = LittleEndian.bytes n v := by
  refine (reads_return LittleEndian.value (reads_take n)).congr fun v bs => ?_
  rw [LittleEndian.eq_bytes_iff]
  constructor
  · rintro ⟨_, ⟨rfl, hlength⟩, hv⟩
    exact ⟨hlength, hv⟩
  · rintro ⟨hlength, hv⟩
    exact ⟨bs, ⟨rfl, hlength⟩, hv⟩

/-- The number in the next eight bytes. -/
theorem reads_word : Reads word fun v bs => bs = LittleEndian.bytes 8 v.toNat := by
  refine (reads_return UInt64.ofNat (reads_number 8)).congr fun v bs => ?_
  constructor
  · rintro ⟨n, ⟨hn, rfl⟩, rfl⟩
    rw [UInt64.toNat_ofNat_of_lt' hn]
  · rintro rfl
    exact ⟨v.toNat, ⟨v.toNat_lt, rfl⟩, UInt64.ofNat_toNat.symm⟩

/-- Words are encoded one behind the other. -/
theorem wordBytes_append (ns ms : List UInt64) :
    wordBytes (ns ++ ms) = wordBytes ns ++ wordBytes ms :=
  List.flatMap_append

/-- `n` numbers of eight bytes. -/
theorem reads_words (n : Nat) :
    Reads (words n) fun (ws : Vector UInt64 n) bs => bs = wordBytes ws.toList := by
  induction n with
  | zero =>
    refine (reads_pure #v[]).congr fun ws bs => ?_
    obtain rfl : ws = #v[] := Vector.eq_empty
    simp [wordBytes]
  | succ n ih =>
    have hlast : ∀ ws : Vector UInt64 n, Reads (do return ws.push (← word)) _ :=
      fun ws => reads_return ws.push reads_word
    refine (reads_bind ih hlast).congr fun ws bs => ?_
    constructor
    · rintro ⟨front, _, _, rfl, ⟨v, rfl, rfl⟩, rfl⟩
      rw [Vector.toList_push, wordBytes_append]
      simp [wordBytes]
    · rintro rfl
      refine ⟨ws.pop, _, _, rfl, ⟨ws.back, rfl, (Vector.push_pop_back ws).symm⟩, ?_⟩
      rw [← Vector.push_pop_back ws, Vector.toList_push, wordBytes_append]
      simp [wordBytes]

/-- The bytes of a field whose length is known. -/
theorem reads_body (n : Nat) : Reads (body n) fun v bs => v = bs ∧ bs.length = n := by
  intro p v q
  -- the check and the shortcut for empty fields change nothing where bytes can be taken
  have htake : outcome (body n) p = (.ok v, q) ↔ outcome (take n) p = (.ok v, q) := by
    rw [body, ensure, outcome_bind, outcome_bind, outcome_get]
    by_cases hshort : p.remaining < n
    · have hfails : outcome (take n) p ≠ (.ok v, q) := fun h =>
        absurd (le_of_outcome_take h).1 (Nat.not_le.mpr hshort)
      simp [hshort, hfails]
    · obtain rfl | hn := Nat.eq_zero_or_pos n
      · simp [outcome_take_of_le]
      · simp [hshort, hn.ne']
  rw [htake]
  exact reads_take n p v q

/-- Bytes behind their number, which is stored in `n` bytes. -/
theorem reads_counted (n : Nat) :
    Reads (do body (← number n)) fun v bs =>
      v.length < 256 ^ n ∧ bs = LittleEndian.bytes n v.length ++ v := by
  refine (reads_bind (reads_number n) reads_body).congr fun v bs => ?_
  constructor
  · rintro ⟨_, _, _, ⟨hlt, rfl⟩, ⟨rfl, rfl⟩, rfl⟩
    exact ⟨hlt, rfl⟩
  · rintro ⟨hlt, rfl⟩
    exact ⟨v.length, _, v, ⟨hlt, rfl⟩, ⟨rfl, rfl⟩, rfl⟩

/-- Byte arrays. -/
theorem reads_array : Reads array fun v bs => Field.array (some v) = .ok bs := by
  refine (reads_counted 4).congr fun v bs => ?_
  rw [Field.array_eq_ok_iff]
  rfl

/-- Strings. An absent one is not read as an empty one. -/
theorem reads_string : Reads string fun s bs => s ≠ some "" ∧ Field.string s = .ok bs := by
  rw [string, ← bind_assoc]
  refine (reads_bind (F := fun bytes s cs =>
    (s ≠ some "" ∧ bytes = byteList (s.getD "").toUTF8) ∧ cs = []) (reads_counted 2) fun bytes =>
    reads_ite (fun hempty => ?_) fun hempty => ?_).congr ?_
  · -- no bytes are read as no string
    obtain rfl := List.isEmpty_iff.mp hempty
    refine (reads_pure none).congr fun s cs => and_congr_left fun _ => ?_
    rw [Field.eq_none_iff]
  · split
    · next t ht =>
      rw [Field.decodeString_eq_ok_iff] at ht
      refine (reads_pure (some t)).congr fun s cs => and_congr_left fun _ => ?_
      have ht' : t ≠ "" := by
        rintro rfl
        exact hempty (List.isEmpty_iff.mpr ht)
      -- an invalid text has no record that it could be the encoding of
      rw [Field.eq_some_iff ht', ht]
    · next e he =>
      refine (reads_throw (.failed e)).congr fun s cs => ⟨False.elim, ?_⟩
      rintro ⟨⟨-, hbytes⟩, -⟩
      rw [Field.decodeString_eq_ok_iff.mpr hbytes] at he
      contradiction
  · intro s bs
    rw [Field.string_eq_ok_iff]
    constructor
    · rintro ⟨_, _, _, ⟨hlt, rfl⟩, ⟨⟨hne, rfl⟩, rfl⟩, rfl⟩
      exact ⟨hne, hlt, List.append_nil _⟩
    · rintro ⟨hne, hlt, rfl⟩
      exact ⟨_, _, [], ⟨hlt, rfl⟩, ⟨⟨hne, rfl⟩, rfl⟩, (List.append_nil _).symm⟩

/-! ### Records -/

/-- The words of `n` vector registers. -/
theorem reads_vectors (n : Nat) :
    Reads (vectors n) fun vs bs => vs.length = n ∧ bs = wordBytes (vs.flatMap Vector.toList) := by
  induction n with
  | zero =>
    refine (reads_pure []).congr fun vs bs => ?_
    rw [List.length_eq_zero_iff]
    exact and_congr_right fun hvs => by rw [hvs]; rfl
  | succ n ih =>
    refine (reads_bind (reads_words 8) fun ws => reads_return (ws :: ·) ih).congr fun vs bs => ?_
    constructor
    · rintro ⟨ws, _, _, rfl, ⟨vs, ⟨rfl, rfl⟩, rfl⟩, rfl⟩
      exact ⟨rfl, (wordBytes_append _ _).symm⟩
    · rintro ⟨hlength, rfl⟩
      obtain ⟨ws, vs, rfl⟩ := List.exists_cons_of_length_eq_add_one hlength
      exact ⟨ws, _, _, rfl, ⟨vs, ⟨Nat.succ.inj hlength, rfl⟩, rfl⟩, wordBytes_append _ _⟩

/-- Snapshots. -/
theorem reads_snapshot : Reads snapshot fun s bs => s.payload = .ok bs := by
  refine (reads_bind reads_word fun rip => reads_bind reads_word fun rflags =>
    reads_bind (reads_words 16) fun gprs => reads_bind reads_word fun fsBase =>
    reads_bind reads_word fun gsBase => reads_bind (reads_number 4) fun count =>
    reads_when (reads_return (Snapshot.mk rip rflags gprs fsBase gsBase) (reads_vectors count))).congr
    fun s bs => ?_
  rw [Snapshot.payload, ite_ok_eq_ok_iff]
  constructor
  · -- each field is in front of the others, and the count is that of the vectors behind it
    rintro ⟨rip, _, _, rfl, ⟨rflags, _, _, rfl, ⟨gprs, _, _, rfl, ⟨fsBase, _, _, rfl,
      ⟨gsBase, _, _, rfl, ⟨count, _, _, ⟨-, rfl⟩, ⟨hle, vs, ⟨rfl, rfl⟩, rfl⟩, rfl⟩, rfl⟩, rfl⟩, rfl⟩,
      rfl⟩, rfl⟩
    refine ⟨Nat.le_of_not_lt hle, ?_⟩
    simp [Snapshot.scalarWords, wordBytes]
  · rintro ⟨hle, rfl⟩
    obtain ⟨rip, rflags, gprs, fsBase, gsBase, vs⟩ := s
    have hcount : vs.length < 256 ^ 4 := Nat.lt_of_le_of_lt hle (by decide)
    refine ⟨rip, _, _, rfl, ⟨rflags, _, _, rfl, ⟨gprs, _, _, rfl, ⟨fsBase, _, _, rfl,
      ⟨gsBase, _, _, rfl, ⟨vs.length, _, _, ⟨hcount, rfl⟩,
      ⟨Nat.not_lt.mpr hle, vs, ⟨rfl, rfl⟩, rfl⟩, rfl⟩, rfl⟩, rfl⟩, rfl⟩, rfl⟩, ?_⟩
    simp [Snapshot.scalarWords, wordBytes]

/-- Executed instructions. -/
theorem reads_step :
    Reads step fun s bs => s.disassembly ≠ some "" ∧ (Record.step s).payload = .ok bs := by
  refine (reads_bind reads_word fun index => reads_bind reads_word fun pc =>
    reads_bind reads_array fun code => reads_bind reads_string fun disassembly =>
    reads_return (StepRecord.mk index pc code disassembly) reads_snapshot).congr fun s bs => ?_
  constructor
  · rintro ⟨index, _, _, rfl, ⟨pc, _, _, rfl, ⟨code, cs, _, hcode, ⟨disassembly, ts, ss, ⟨hne, htext⟩,
      ⟨state, hstate, rfl⟩, rfl⟩, rfl⟩, rfl⟩, rfl⟩
    have hbytes : (Record.step ⟨index, pc, code, disassembly, state⟩).payload =
        .ok (wordBytes [index, pc] ++ cs ++ ts ++ ss) := by
      rw [Record.payload, hcode, htext, hstate]
      rfl
    rw [hbytes]
    simp [wordBytes, hne]
  · rintro ⟨hne, h⟩
    rw [Record.payload] at h
    obtain ⟨cs, hcode, h⟩ := bind_eq_ok_iff.mp h
    obtain ⟨ts, htext, h⟩ := bind_eq_ok_iff.mp h
    obtain ⟨ss, hstate, h⟩ := bind_eq_ok_iff.mp h
    -- the fields of the record, in the order in which they were written
    cases h
    refine ⟨s.index, _, _, rfl, ⟨s.pc, _, _, rfl, ⟨s.code, cs, _, hcode, ⟨s.disassembly, ts, ss,
      ⟨hne, htext⟩, ⟨s.state, hstate, rfl⟩, rfl⟩, rfl⟩, rfl⟩, ?_⟩
    simp [wordBytes]

/-- Sizes of accesses, and whether they write. -/
theorem reads_memoryEvent :
    Reads memoryEvent fun e bs => e.size.toNat ∈ [1, 2, 4, 8, 16] ∧ bs = e.payload := by
  refine (reads_bind reads_word fun address => reads_bind (reads_number 1) fun size =>
    reads_unless (reads_bind (reads_number 1) fun direction =>
    reads_when (reads_return (fun n => MemoryEvent.mk address (UInt8.ofNat size) (direction = 1)
      (BitVec.ofNat 128 n)) (reads_number 16)))).congr fun e bs => ?_
  constructor
  · rintro ⟨address, _, _, rfl, ⟨size, _, _, ⟨hsize, rfl⟩, ⟨hmem, direction, _, _, ⟨-, rfl⟩,
      ⟨hdirection, n, ⟨hn, rfl⟩, rfl⟩, rfl⟩, rfl⟩, rfl⟩
    -- the numbers read are in range, so nothing is lost in the conversions
    have hkept : (UInt8.ofNat size).toNat = size := UInt8.toNat_ofNat_of_lt' hsize
    have hvalue : (BitVec.ofNat 128 n).toNat = n := Nat.mod_eq_of_lt hn
    have hflag : LittleEndian.bytes 1 direction = [bif decide (direction = 1) then 1 else 0] := by
      obtain rfl | rfl : direction = 0 ∨ direction = 1 := by omega
      · rfl
      · rfl
    refine ⟨by rwa [hkept, ← List.contains_iff_mem], ?_⟩
    rw [MemoryEvent.payload, hvalue, hflag]
    simp [LittleEndian.bytes]
  · rintro ⟨hmem, rfl⟩
    -- and the other way round, the fields of an event are such numbers
    have hflag : e.write = decide ((bif e.write then 1 else 0) = 1) := by cases e.write <;> rfl
    have hdirection : ¬1 < bif e.write then 1 else 0 := by cases e.write <;> decide
    have hsize : e.size.toNat < 256 ^ 1 := e.size.toNat_lt
    have hvalue : e.value.toNat < 256 ^ 16 := e.value.isLt
    refine ⟨e.address, _, _, rfl, ⟨e.size.toNat, _, _, ⟨hsize, rfl⟩,
      ⟨List.contains_iff_mem.mpr hmem, bif e.write then 1 else 0, _, _, ⟨?_, rfl⟩,
      ⟨hdirection, e.value.toNat, ⟨hvalue, rfl⟩, ?_⟩, rfl⟩, rfl⟩, ?_⟩
    · omega
    · rw [← hflag, UInt8.ofNat_toNat, BitVec.ofNat_toNat, BitVec.setWidth_eq]
    · cases hw : e.write <;> simp [MemoryEvent.payload, LittleEndian.bytes, hw]

/-- Where code comes from. -/
theorem reads_location :
    Reads location fun l bs =>
      (l.filename ≠ some "" ∧ l.symbol ≠ some "") ∧ (Record.location l).payload = .ok bs := by
  refine (reads_bind reads_string fun filename => reads_bind reads_string fun symbol =>
    reads_bind reads_word fun offset =>
    reads_return (LocationRecord.mk filename symbol offset) reads_word).congr fun l bs => ?_
  constructor
  · rintro ⟨filename, fs, _, ⟨hfilename, hfs⟩, ⟨symbol, ss, _, ⟨hsymbol, hss⟩, ⟨offset, _, _, rfl,
      ⟨pc, rfl, rfl⟩, rfl⟩, rfl⟩, rfl⟩
    have hbytes : (Record.location ⟨filename, symbol, offset, pc⟩).payload =
        .ok (fs ++ ss ++ wordBytes [offset, pc]) := by
      rw [Record.payload, hfs, hss]
      rfl
    rw [hbytes]
    simp [wordBytes, hfilename, hsymbol]
  · rintro ⟨⟨hfilename, hsymbol⟩, h⟩
    rw [Record.payload] at h
    obtain ⟨fs, hfs, h⟩ := bind_eq_ok_iff.mp h
    obtain ⟨ss, hss, h⟩ := bind_eq_ok_iff.mp h
    -- as above, with two texts in front
    cases h
    refine ⟨l.filename, fs, _, ⟨hfilename, hfs⟩, ⟨l.symbol, ss, _, ⟨hsymbol, hss⟩,
      ⟨l.offset, _, _, rfl, ⟨l.pc, rfl, rfl⟩, rfl⟩, rfl⟩, ?_⟩
    simp [wordBytes]

/-- Messages. -/
theorem reads_systemLog :
    Reads systemLog fun l bs => (Record.systemLog l).payload = .ok bs := by
  refine (reads_bind reads_word fun pc => reads_bind reads_word fun thread =>
    reads_return (fun s : Option String => LogRecord.mk pc thread (s.getD "")) reads_string).congr
    fun l bs => ?_
  constructor
  · rintro ⟨pc, _, _, rfl, ⟨thread, _, ms, rfl, ⟨message, ⟨-, hms⟩, rfl⟩, rfl⟩, rfl⟩
    -- a missing message is written as an empty one
    have hmessage : Field.string (some (message.getD "")) = .ok ms := hms
    have hbytes : (Record.systemLog ⟨pc, thread, message.getD ""⟩).payload =
        .ok (wordBytes [pc, thread] ++ ms) := by
      rw [Record.payload, hmessage]
      rfl
    rw [hbytes]
    simp [wordBytes]
  · intro h
    rw [Record.payload] at h
    obtain ⟨ms, hms, h⟩ := bind_eq_ok_iff.mp h
    cases h
    rw [← Field.string_normalize] at hms
    refine ⟨l.pc, _, _, rfl, ⟨l.thread, _, ms, rfl, ⟨Field.normalize (some l.message),
      ⟨Field.normalize_ne _, hms⟩, ?_⟩, rfl⟩, ?_⟩
    · rw [Field.getD_normalize]
      rfl
    · simp [wordBytes]

end PayloadReader

namespace Record

/-- The record can be read: it does not tell an empty string from an absent one, and its access has one of
    the sizes that accesses have. -/
def Canonical : Record → Prop
  | step s => s.disassembly ≠ some ""
  | memoryEvent e => e.size.toNat ∈ [1, 2, 4, 8, 16]
  | location l => l.filename ≠ some "" ∧ l.symbol ≠ some ""
  | _ => True

/-- Reading the contents of records of a kind is reading the records. -/
theorem reads_contents {α : Type} {kind : RecordKind} {record : α → Record} {x : PayloadReader α}
    (hkind : ∀ r : Record, r.kind = kind ↔ ∃ v, r = record v)
    (hx : PayloadReader.Reads x fun v bs => (record v).Canonical ∧ (record v).payload = .ok bs) :
    PayloadReader.Reads (record <$> x) fun r bs =>
      r.kind = kind ∧ r.Canonical ∧ r.payload = .ok bs := by
  rw [map_eq_pure_bind]
  refine (PayloadReader.reads_return record hx).congr fun r bs => ?_
  rw [hkind r]
  constructor
  · rintro ⟨v, hv, rfl⟩
    exact ⟨⟨v, rfl⟩, hv⟩
  · rintro ⟨⟨v, rfl⟩, hv⟩
    exact ⟨v, hv, rfl⟩

/-- **Records.** The record of a kind is read from its payload, and from no other bytes. -/
theorem reads_read (kind : RecordKind) :
    PayloadReader.Reads (read kind) fun r bs => r.kind = kind ∧ r.Canonical ∧ r.payload = .ok bs := by
  cases kind with
  | cpuState =>
    refine reads_contents (fun r => by cases r <;> simp [Record.kind]) ?_
    exact PayloadReader.reads_snapshot.congr fun s bs => (and_iff_right trivial).symm
  | step =>
    exact reads_contents (fun r => by cases r <;> simp [Record.kind]) PayloadReader.reads_step
  | memoryEvent =>
    refine reads_contents (fun r => by cases r <;> simp [Record.kind]) ?_
    refine PayloadReader.reads_memoryEvent.congr fun e bs => and_congr_right fun _ => ?_
    exact ⟨fun h => congrArg Except.ok h.symm, fun h => (Except.ok.inj h).symm⟩
  | location =>
    exact reads_contents (fun r => by cases r <;> simp [Record.kind]) PayloadReader.reads_location
  | systemLog =>
    refine reads_contents (fun r => by cases r <;> simp [Record.kind]) ?_
    exact PayloadReader.reads_systemLog.congr fun l bs => (and_iff_right trivial).symm
  | endOfTrace =>
    refine (PayloadReader.reads_pure endOfTrace).congr fun r bs => ?_
    constructor
    · rintro ⟨rfl, rfl⟩
      exact ⟨rfl, trivial, rfl⟩
    · rintro ⟨hkind, -, hpayload⟩
      cases r <;> first | contradiction | exact ⟨rfl, (Except.ok.inj hpayload).symm⟩

end Record

end Amd64
