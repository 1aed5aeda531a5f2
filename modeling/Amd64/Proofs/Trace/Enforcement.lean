import Amd64.Proofs.Trace.Confinement
import Amd64.Proofs.Trace.FieldForms
import Amd64.Proofs.Trace.Framing

namespace Amd64

/-!
# Enforced frames

Whatever the bytes of a stream are, a frame is read within the size that it declares.

* `Verdict.Yields`      — the error or record that a verdict on the fields of a payload stands for;
* `PayloadRead`         — how the payload of a frame is read from any stream;
* `Reading`             — what a call does to any stream;
* `nextRecord_enforces` — calls do nothing else, and streams end.
-/

/-! ### Payloads -/

/-- What a verdict on the fields of a payload says about the record. -/
inductive Verdict.Yields (kind : RecordKind) (payload : List UInt8) :
    Verdict → Except TraceError Record → Prop where
  | overrun {stop : Nat} (beyond : payload.length < stop) :
      Yields kind payload (.overrun stop) (.error (.sizeMismatch kind.tag payload.length stop))
  | malformed {e : TraceError} (field : (∃ problem, e = .corrupt problem) ∨ ∃ validUpTo, e = .utf8 validUpTo) :
      Yields kind payload (.malformed e) (.error e)
  | unused {used : Nat} (left : used < payload.length) :
      Yields kind payload (.parsed used) (.error (.sizeMismatch kind.tag payload.length used))
  | whole {r : Record} (kind_eq : r.kind = kind) (bytes : r.payload = .ok payload) :
      Yields kind payload (.parsed payload.length) (.ok r)

/-- How the payload of a frame that declares its size is read from what is left of a stream: `x` is what is
    read, from `used` bytes. -/
structure PayloadRead (kind : RecordKind) (declared : Nat) (bs : List UInt8) (x : Except TraceError Record)
    (used : Nat) : Prop where
  /-- Nothing behind the payload is read. -/
  within : used ≤ declared
  available : used ≤ bs.length
  /-- A record is read from all of it. -/
  whole : ∀ r, x = .ok r → used = declared
  mismatch : ∀ tag size actual, x = .error (.sizeMismatch tag size actual) →
    tag = kind.tag ∧ size = declared ∧ actual ≠ declared
  /-- Where the payload is all there, its fields decide. -/
  decided : declared ≤ bs.length → (∃ v, Decides (bs.take declared) kind.fields 0 v) ∧
    ∀ v, Decides (bs.take declared) kind.fields 0 v → v.Yields kind (bs.take declared) x

section
variable {kind : RecordKind} {declared : Nat} {bs : List UInt8} {q : PayloadState}

/-- A field that runs over is a mismatch of sizes, with the end of this field. -/
theorem outcome_readPayload_of_overrun {stop : Nat}
    (h : outcome (Record.read kind) ⟨bs, declared, 0⟩ = (.error (.overrun stop), q)) :
    outcome (readPayload kind declared) bs = (.error (.sizeMismatch kind.tag declared stop), q.rest) := by
  rw [readPayload, outcome_mk, run_run, h]

/-- A field that fails for another reason passes its error on. -/
theorem outcome_readPayload_of_failed {e : TraceError}
    (h : outcome (Record.read kind) ⟨bs, declared, 0⟩ = (.error (.failed e), q)) :
    outcome (readPayload kind declared) bs = (.error e, q.rest) := by
  rw [readPayload, outcome_mk, run_run, h]

/-- A payload that is read has to end where it was declared to. -/
theorem outcome_readPayload_of_ok {r : Record}
    (h : outcome (Record.read kind) ⟨bs, declared, 0⟩ = (.ok r, q)) :
    outcome (readPayload kind declared) bs =
      (if q.consumed = declared then .ok r else .error (.sizeMismatch kind.tag declared q.consumed),
        q.rest) := by
  rw [readPayload, outcome_mk, run_run, h]
  by_cases hused : q.consumed = declared
  · simp only [if_pos hused]
  · simp only [if_neg hused]

end

/-- The fields of a payload that is all there decide what is read. -/
theorem readPayload_yields (kind : RecordKind) (payload tail : List UInt8) :
    ∃ v, Decides payload kind.fields 0 v ∧
      v.Yields kind payload (outcome (readPayload kind payload.length) (payload ++ tail)).1 := by
  have hfinds : PayloadReader.Finds payload tail kind.fields [] 0
      (outcome (Record.read kind) ⟨payload ++ tail, payload.length, 0⟩) :=
    Record.follows_read kind payload tail [] 0 (Nat.zero_le _)
  generalize hresult : outcome (Record.read kind) ⟨payload ++ tail, payload.length, 0⟩ = result at hfinds
  cases hfinds with
  | overrun decides =>
    rw [List.append_nil] at decides
    rw [outcome_readPayload_of_overrun hresult]
    exact ⟨_, decides, .overrun decides.lt_of_overrun⟩
  | failed decides =>
    rw [List.append_nil] at decides
    rw [outcome_readPayload_of_failed hresult]
    exact ⟨_, decides, .malformed decides.error_of_malformed⟩
  | @passed r used inside decides =>
    have hparsed := decides _ .parsed
    rw [List.append_nil] at hparsed
    rw [outcome_readPayload_of_ok hresult]
    refine ⟨_, hparsed, ?_⟩
    by_cases hused : used = payload.length
    · -- the record is the one that is written as these bytes
      obtain ⟨bs, ⟨hkind, -, hbytes⟩, htook⟩ := (Record.reads_read kind _ r _).mp hresult
      have hrest : payload ++ tail = bs ++ (payload.drop used ++ tail) := htook.rest
      rw [hused, List.drop_length] at hrest
      rw [← List.append_cancel_right hrest] at hbytes
      have hend : (PayloadState.at payload tail used).consumed = payload.length := hused
      rw [if_pos hend, hused]
      exact .whole hkind hbytes
    · have hend : ¬(PayloadState.at payload tail used).consumed = payload.length := hused
      rw [if_neg hend]
      exact .unused (by omega)

/-- **Payloads.** A payload is read so from any stream. -/
theorem payloadRead (kind : RecordKind) (declared : Nat) (bs : List UInt8) :
    ∃ used, (outcome (readPayload kind declared) bs).2 = bs.drop used ∧
      PayloadRead kind declared bs (outcome (readPayload kind declared) bs).1 used := by
  have hconfined := Record.confined_read kind
  obtain ⟨taken, htook⟩ := hconfined.took ⟨bs, declared, 0⟩
  have hoverrun := hconfined.overrun ⟨bs, declared, 0⟩
  have hmismatch := hconfined.mismatch ⟨bs, declared, 0⟩
  -- the fields of the payload decide, if all of it is there
  have hdecided : declared ≤ bs.length → (∃ v, Decides (bs.take declared) kind.fields 0 v) ∧
      ∀ v, Decides (bs.take declared) kind.fields 0 v →
        v.Yields kind (bs.take declared) (outcome (readPayload kind declared) bs).1 := by
    intro h
    obtain ⟨v, hv, hyields⟩ := readPayload_yields kind (bs.take declared) (bs.drop declared)
    rw [List.take_append_drop, List.length_take_of_le h] at hyields
    exact ⟨⟨v, hv⟩, fun w hw => hv.unique hw ▸ hyields⟩
  -- what was taken is all that counts for the rest of the stream
  generalize hresult : outcome (Record.read kind) ⟨bs, declared, 0⟩ = result at htook hoverrun hmismatch
  obtain ⟨x, q⟩ := result
  have hrest : bs = taken ++ q.rest := htook.rest
  have hwithin : declared = taken.length + q.remaining := htook.remaining
  have hconsumed : q.consumed = taken.length := htook.consumed.trans (Nat.zero_add _)
  have hlength : taken.length ≤ bs.length := by
    rw [hrest, List.length_append]
    omega
  have hdrop : q.rest = bs.drop taken.length := by
    rw [hrest, List.drop_left]
  refine ⟨taken.length, ?_⟩
  -- a field that runs over, a field that fails, or a record that may not use up its size
  rcases x with (stop | e) | r
  · rw [outcome_readPayload_of_overrun hresult] at hdecided ⊢
    refine ⟨hdrop, by omega, hlength, nofun, fun tag size actual h => ?_, hdecided⟩
    have hbeyond : 0 + declared < stop := hoverrun stop rfl
    cases h
    exact ⟨rfl, rfl, by omega⟩
  · rw [outcome_readPayload_of_failed hresult] at hdecided ⊢
    refine ⟨hdrop, by omega, hlength, nofun, fun tag size actual h => ?_, hdecided⟩
    cases h
    exact absurd rfl (hmismatch tag size actual)
  · rw [outcome_readPayload_of_ok hresult] at hdecided ⊢
    refine ⟨hdrop, by omega, hlength, ?_, ?_, hdecided⟩
    · intro r' h
      split at h
      · next hused => exact hconsumed.symm.trans hused
      · cases h
    · intro tag size actual h
      split at h
      · cases h
      · next hused =>
        cases h
        exact ⟨rfl, rfl, hused⟩

/-! ### Streams -/

/-- The tag and the size in front of a payload. -/
def frameHeader (tag declared : Nat) : List UInt8 :=
  LittleEndian.bytes 4 tag ++ LittleEndian.bytes 4 declared

/-- A header has a tag and a size of four bytes each. -/
theorem length_frameHeader (tag declared : Nat) : (frameHeader tag declared).length = 8 := by
  simp [frameHeader]

/-- What a call does to a stream: it skips frames of unknown kinds, and then it is at the end of the stream or
    reads one payload. -/
inductive Reading : List UInt8 → Except TraceError (Option Record) × List UInt8 → Prop where
  | ended : Reading [] (.ok none, [])
  /-- The stream ends in a header. -/
  | cut {bs : List UInt8} (some_bytes : bs ≠ []) (short : bs.length < 8) : Reading bs (.error .unexpectedEnd, [])
  | skipped {tag declared : Nat} {bs : List UInt8} {result : Except TraceError (Option Record) × List UInt8}
      (tag_lt : tag < UInt32.size) (declared_lt : declared < UInt32.size)
      (foreign : RecordKind.ofTag? tag = none) (available : declared ≤ bs.length)
      (next : Reading (bs.drop declared) result) : Reading (frameHeader tag declared ++ bs) result
  /-- The stream ends in a payload that would be skipped. -/
  | skippedCut {tag declared : Nat} {bs : List UInt8} (tag_lt : tag < UInt32.size)
      (declared_lt : declared < UInt32.size) (foreign : RecordKind.ofTag? tag = none)
      (short : bs.length < declared) : Reading (frameHeader tag declared ++ bs) (.error .unexpectedEnd, [])
  | known {kind : RecordKind} {declared used : Nat} {bs : List UInt8} {x : Except TraceError Record}
      (declared_lt : declared < UInt32.size) (payload : PayloadRead kind declared bs x used) :
      Reading (frameHeader kind.tag declared ++ bs) (x.map some, bs.drop used)

/-- Too few bytes for a field are all used up. -/
theorem FieldReader.outcome_take_of_lt {n : Nat} {bs : List UInt8} (h : bs.length < n) :
    outcome (take n) bs = (.error .unexpectedEnd, []) := by
  rw [outcome_take, List.take_of_length_le h.le, List.drop_of_length_le h.le, if_neg h.ne]

/-- Too few bytes for a number are all used up. -/
theorem FieldReader.outcome_number_of_lt {n : Nat} {bs : List UInt8} (h : bs.length < n) :
    outcome (number n) bs = (.error .unexpectedEnd, []) := by
  rw [number, outcome_bind, outcome_take_of_lt h]

/-- A number is read from its bytes. -/
theorem FieldReader.outcome_number_append {n v : Nat} {bs : List UInt8} (h : v < 256 ^ n) :
    outcome (number n) (LittleEndian.bytes n v ++ bs) = (.ok v, bs) :=
  number_eq_ok_iff.mpr ⟨h, rfl⟩

/-- Where there are `n` bytes, they are a number. -/
theorem LittleEndian.exists_append {n : Nat} {bs : List UInt8} (h : n ≤ bs.length) :
    ∃ v tail, v < 256 ^ n ∧ bs = bytes n v ++ tail := by
  obtain ⟨hlt, hbytes⟩ := LittleEndian.eq_bytes_iff.mpr ⟨List.length_take_of_le h, rfl⟩
  refine ⟨LittleEndian.value (bs.take n), bs.drop n, hlt, ?_⟩
  rw [← hbytes, List.take_append_drop]

/-- A stream is empty, ends in its first header, or has one. -/
theorem stream_cases (bs : List UInt8) :
    bs = [] ∨ (bs ≠ [] ∧ bs.length < 8) ∨
      ∃ tag declared tail, tag < 256 ^ 4 ∧ declared < 256 ^ 4 ∧ bs = frameHeader tag declared ++ tail := by
  obtain rfl | hbs := eq_or_ne bs []
  · exact .inl rfl
  by_cases hshort : bs.length < 8
  · exact .inr (.inl ⟨hbs, hshort⟩)
  · have htagged : 4 ≤ bs.length := by omega
    obtain ⟨tag, rest, htag, rfl⟩ := LittleEndian.exists_append htagged
    have hlength : 4 ≤ rest.length := by
      rw [List.length_append, LittleEndian.length_bytes] at hshort
      omega
    obtain ⟨declared, tail, hdeclared, rfl⟩ := LittleEndian.exists_append hlength
    exact .inr (.inr ⟨tag, declared, tail, htag, hdeclared, (List.append_assoc ..).symm⟩)

section
variable {b : UInt8} {bound bs : List UInt8}

/-- A header that is cut off is not read. -/
theorem outcome_nextRecordIn_cut (hbs : bs ≠ []) (h : bs.length < 8) :
    outcome (nextRecordIn (b :: bound)) bs = (.error .unexpectedEnd, []) := by
  have hnonempty : ¬bs.isEmpty := fun h => hbs (List.isEmpty_iff.mp h)
  rw [nextRecordIn, outcome_bind, outcome_get]
  simp only [if_neg hnonempty, outcome_bind]
  by_cases hcut : bs.length < 4
  · rw [FieldReader.outcome_number_of_lt hcut]
  · have htagged : 4 ≤ bs.length := by omega
    obtain ⟨tag, rest, htag, rfl⟩ := LittleEndian.exists_append htagged
    have hlength : rest.length < 4 := by
      rw [List.length_append, LittleEndian.length_bytes] at h
      omega
    simp only [FieldReader.outcome_number_append htag, FieldReader.outcome_number_of_lt hlength]

/-- A header is there. -/
theorem isEmpty_frameHeader (tag declared : Nat) : ¬(frameHeader tag declared ++ bs).isEmpty := by
  intro h
  have hlength := congrArg List.length (List.isEmpty_iff.mp h)
  rw [List.length_append, length_frameHeader] at hlength
  exact absurd hlength (by simp)

/-- Behind a header of a kind the payload is read. -/
theorem outcome_nextRecordIn_known (kind : RecordKind) {declared : Nat} (hdeclared : declared < 256 ^ 4) :
    outcome (nextRecordIn (b :: bound)) (frameHeader kind.tag declared ++ bs) =
      ((outcome (readPayload kind declared) bs).1.map some, (outcome (readPayload kind declared) bs).2) := by
  have htag : kind.tag < 256 ^ 4 := Record.tag_lt kind
  rw [nextRecordIn, outcome_bind, outcome_get]
  simp only [if_neg (isEmpty_frameHeader kind.tag declared), outcome_bind]
  simp only [frameHeader, List.append_assoc, FieldReader.outcome_number_append htag,
    FieldReader.outcome_number_append hdeclared, RecordKind.ofTag?_tag, outcome_bind]
  rcases outcome (readPayload kind declared) bs with ⟨_ | _, _⟩ <;> rfl

/-- Behind a header of no kind the payload is skipped. -/
theorem outcome_nextRecordIn_foreign {tag declared : Nat} (htag : tag < 256 ^ 4) (hdeclared : declared < 256 ^ 4)
    (hforeign : RecordKind.ofTag? tag = none) :
    outcome (nextRecordIn (b :: bound)) (frameHeader tag declared ++ bs) =
      outcome (FieldReader.take declared >>= fun _ => nextRecordIn bound) bs := by
  rw [nextRecordIn, outcome_bind, outcome_get]
  simp only [if_neg (isEmpty_frameHeader tag declared), outcome_bind]
  simp only [frameHeader, List.append_assoc, FieldReader.outcome_number_append htag,
    FieldReader.outcome_number_append hdeclared, hforeign, outcome_bind]

end

/-- **Streams.** A call does this to any stream. The bound is as long as the stream, and every frame that is
    skipped shortens both. -/
theorem reading_nextRecordIn {bound bs : List UInt8} (h : bs.length ≤ bound.length) :
    Reading bs (outcome (nextRecordIn bound) bs) := by
  -- on the bound, which shrinks with each frame that is skipped
  induction bound generalizing bs with
  | nil =>
    obtain rfl := List.eq_nil_of_length_eq_zero (Nat.le_zero.mp h)
    exact .ended
  | cons b bound ih =>
    obtain rfl | ⟨hbs, hshort⟩ | ⟨tag, declared, bs, htag, hdeclared, rfl⟩ := stream_cases bs
    · exact .ended
    · rw [outcome_nextRecordIn_cut hbs hshort]
      exact .cut hbs hshort
    · cases hkind : RecordKind.ofTag? tag with
      | some kind =>
        obtain rfl := RecordKind.ofTag?_eq_some_iff.mp hkind
        rw [outcome_nextRecordIn_known kind hdeclared]
        obtain ⟨used, hrest, hpayload⟩ := payloadRead kind declared bs
        rw [hrest]
        exact .known hdeclared hpayload
      | none =>
        rw [outcome_nextRecordIn_foreign htag hdeclared hkind, outcome_bind]
        by_cases havailable : declared ≤ bs.length
        · have htake : outcome (FieldReader.take declared) bs = (.ok (bs.take declared), bs.drop declared) :=
            FieldReader.take_eq_ok_iff.mpr ⟨List.length_take_of_le havailable, (List.take_append_drop ..).symm⟩
          -- a frame of unknown kind is stepped over, header and payload
          rw [htake]
          refine .skipped htag hdeclared hkind havailable (ih ?_)
          rw [List.length_append, length_frameHeader, List.length_cons] at h
          rw [List.length_drop]
          omega
        · rw [FieldReader.outcome_take_of_lt (Nat.not_le.mp havailable)]
          exact .skippedCut htag hdeclared hkind (Nat.not_le.mp havailable)

/-- A call reads frames and foreign frames as they come. -/
theorem reading_nextRecord (bs : List UInt8) : Reading bs (outcome nextRecord bs) := by
  rw [outcome_nextRecord]
  exact reading_nextRecordIn (Nat.le_refl _)

namespace Reading

variable {bs : List UInt8} {result : Except TraceError (Option Record) × List UInt8}

/-- No error says that a payload has the size that it declares. -/
theorem mismatch (h : Reading bs result) (tag declared : Nat) :
    result.1 ≠ .error (.sizeMismatch tag declared declared) := by
  induction h with
  | ended => nofun
  | cut _ _ => nofun
  | skipped _ _ _ _ _ ih => exact ih
  | skippedCut _ _ _ _ => nofun
  | @known kind _ _ _ x _ payload =>
    intro hx
    cases x with
    | ok r => cases hx
    | error e =>
      cases hx
      obtain ⟨-, rfl, hne⟩ := payload.mismatch _ _ _ rfl
      exact hne rfl

/-- Nothing is put back in front. -/
theorem suffix (h : Reading bs result) : result.2 <:+ bs := by
  induction h with
  | ended => exact List.suffix_rfl
  | cut _ _ => exact List.nil_suffix
  | skipped _ _ _ _ _ ih => exact ih.trans ((List.drop_suffix ..).trans (List.suffix_append ..))
  | skippedCut _ _ _ _ => exact List.nil_suffix
  | known _ _ => exact (List.drop_suffix ..).trans (List.suffix_append ..)

/-- Only at the end of the stream nothing is read. -/
theorem lt_length (h : Reading bs result) (hbs : bs ≠ []) : result.2.length < bs.length := by
  have hpos := List.length_pos_iff.mpr hbs
  cases h with
  | ended => exact absurd rfl hbs
  | cut _ _ => exact hpos
  | skipped _ _ _ _ next =>
    have hle := next.suffix.length_le
    rw [List.length_append, length_frameHeader]
    rw [List.length_drop] at hle
    omega
  | skippedCut _ _ _ _ => exact hpos
  | known _ _ =>
    rw [List.length_append, length_frameHeader, List.length_drop]
    omega

end Reading

/-- What is left of a stream after `n` calls. -/
def afterCalls : Nat → List UInt8 → List UInt8
  | 0, bs => bs
  | n + 1, bs => afterCalls n (outcome nextRecord bs).2

/-- Some number of calls comes to the end of the stream. -/
theorem exists_calls (bs : List UInt8) : ∃ n ≤ bs.length, (outcome nextRecord (afterCalls n bs)).1 = .ok none := by
  induction hlength : bs.length using Nat.strong_induction_on generalizing bs with
  | _ k ih =>
    obtain rfl | hbs := eq_or_ne bs []
    · exact ⟨0, Nat.zero_le _, rfl⟩
    · have hlt := (reading_nextRecord bs).lt_length hbs
      obtain ⟨n, hn, hends⟩ := ih _ (hlength ▸ hlt) _ rfl
      exact ⟨n + 1, by omega, hends⟩

/-- More attempts than there are bytes do not read more. -/
theorem readRecords_of_lt {n m errors : Nat} {bs : List UInt8} (hn : bs.length < n) (hm : bs.length < m) :
    readRecords n errors bs = readRecords m errors bs := by
  induction n generalizing m errors bs with
  | zero => omega
  | succ n ih =>
    obtain _ | m := m
    · omega
    obtain rfl | hbs := eq_or_ne bs []
    · rfl
    have hlt := (reading_nextRecord bs).lt_length hbs
    rw [readRecords, readRecords, run_run]
    generalize outcome nextRecord bs = result at hlt ⊢
    obtain ⟨x, rest⟩ := result
    have hrest : rest.length < bs.length := hlt
    have hsame : ∀ errors, readRecords n errors rest = readRecords m errors rest :=
      fun errors => ih (by omega) (by omega)
    rcases x with e | r | r
    · simp only [hsame]
    · rfl
    · simp only [hsame]

/-- **Framing.** Every call does to every stream what `Reading` says: it stays in the payload that a frame
    declares, reads a record from exactly that, and otherwise reports the first field of the payload that cannot
    be read. No size is reported as wrong that is right, every call but the last uses up bytes, and streams end. -/
theorem nextRecord_enforces :
    (∀ bs, Reading bs (outcome nextRecord bs)) ∧
    (∀ bs tag declared, (outcome nextRecord bs).1 ≠ .error (.sizeMismatch tag declared declared)) ∧
    (∀ bs, (outcome nextRecord bs).1 ≠ .ok none →
      (outcome nextRecord bs).2 <:+ bs ∧ (outcome nextRecord bs).2.length < bs.length) ∧
    (∀ bs, ∃ n ≤ bs.length, (outcome nextRecord (afterCalls n bs)).1 = .ok none) ∧
    ∀ bs n errors, bs.length < n → readRecords n errors bs = readTrace errors bs := by
  refine ⟨reading_nextRecord, fun bs => (reading_nextRecord bs).mismatch, fun bs h => ?_, exists_calls,
    fun bs n errors hn => readRecords_of_lt hn (Nat.lt_succ_self _)⟩
  refine ⟨(reading_nextRecord bs).suffix, (reading_nextRecord bs).lt_length ?_⟩
  rintro rfl
  exact h rfl

/-- An access of which five bytes are declared: its address would end behind them, and of the bytes that follow
    none is read. -/
theorem nextRecord_enforces_cutAccess :
    let bs := frameHeader RecordKind.memoryEvent.tag 5 ++ [1, 2, 3, 4, 5, 6, 7, 8]
    (outcome nextRecord bs).1 = .error (.sizeMismatch 0x304d454d 5 8) ∧ Reading bs (outcome nextRecord bs) ∧
      (outcome nextRecord bs).2.length < bs.length ∧
      readRecords 100 1 bs = readTrace 1 bs := by
  intro bs
  have hresult : (outcome nextRecord bs).1 = .error (.sizeMismatch 0x304d454d 5 8) := by decide +kernel
  obtain ⟨hreading, -, hprogress, -, hall⟩ := nextRecord_enforces
  refine ⟨hresult, hreading bs, (hprogress bs ?_).2, hall bs 100 1 (by decide)⟩
  rw [hresult]
  nofun

end Amd64
