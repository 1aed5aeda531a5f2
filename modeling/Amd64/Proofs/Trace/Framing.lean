import Amd64.Proofs.Trace.Payload

namespace Amd64

/-!
# Frames of a stream

A stream of records is a sequence of frames: a tag, the size of a payload and the payload.  Readers skip
the frames whose tags are not those of records.

* `Frame`                     — a frame, its bytes, and what it means that it is foreign;
* `Frame.append_inj`          — where a frame ends is written in it;
* `Record.frame_eq_ok_iff`    — a record is written as the frame of its kind and payload;
* `nextRecord_eq_some_iff`    — a record is read where foreign frames and the frame of the record lie ahead;
* `nextRecord_eq_none_iff`    — the end is reached where nothing but foreign frames lies ahead;
* `nextRecord_canonical`      — no record is read from other bytes than it is written as.
-/

/-- Small numbers are told apart by their bytes. -/
theorem LittleEndian.bytes_injective {n v w : Nat} (hv : v < 256 ^ n) (hw : w < 256 ^ n)
    (h : bytes n v = bytes n w) : v = w := by
  rw [← Nat.mod_eq_of_lt hv, ← Nat.mod_eq_of_lt hw, ← value_bytes, ← value_bytes, h]

/-- The tag and the payload of a frame. -/
structure Frame where
  tag : Nat
  payload : List UInt8
  tag_lt : tag < UInt32.size
  length_lt : payload.length < UInt32.size

namespace Frame

/-- The bytes of a frame. -/
def bytes (f : Frame) : List UInt8 :=
  LittleEndian.bytes 4 f.tag ++ LittleEndian.bytes 4 f.payload.length ++ f.payload

/-- The tag is the tag of no record. -/
def Foreign (f : Frame) : Prop :=
  RecordKind.ofTag? f.tag = none

instance (f : Frame) : Decidable f.Foreign :=
  inferInstanceAs (Decidable (_ = none))

/-- A frame has bytes. -/
theorem append_ne_nil (f : Frame) (bs : List UInt8) : f.bytes ++ bs ≠ [] := by
  intro h
  have hlength := congrArg List.length h
  simp [bytes] at hlength

/-- The bytes behind a frame are fewer. -/
theorem le_of_append_le (f : Frame) {bs bound : List UInt8} {b : UInt8}
    (h : (f.bytes ++ bs).length ≤ (b :: bound).length) : bs.length ≤ bound.length := by
  simp only [bytes, List.length_append, LittleEndian.length_bytes, List.length_cons] at h
  omega

/-- Frames are told apart by their bytes, whatever follows them. -/
theorem append_inj {f g : Frame} {as bs : List UInt8} (h : f.bytes ++ as = g.bytes ++ bs) :
    f = g ∧ as = bs := by
  simp only [bytes, List.append_assoc] at h
  obtain ⟨htag, h⟩ := List.append_inj h (by simp)
  obtain ⟨hsize, h⟩ := List.append_inj h (by simp)
  have hsize : f.payload.length = g.payload.length :=
    LittleEndian.bytes_injective f.length_lt g.length_lt hsize
  have hpayload : f.payload = g.payload := (List.append_inj h hsize).1
  have htag : f.tag = g.tag := LittleEndian.bytes_injective f.tag_lt g.tag_lt htag
  obtain ⟨ftag, fpayload, _, _⟩ := f
  obtain ⟨gtag, gpayload, _, _⟩ := g
  obtain rfl : ftag = gtag := htag
  obtain rfl : fpayload = gpayload := hpayload
  exact ⟨rfl, List.append_cancel_left h⟩

end Frame

/-- A frame that readers skip. -/
structure ForeignFrame extends Frame where
  foreign : toFrame.Foreign

/-! ### Writing -/

/-- Words have eight bytes each. -/
theorem length_wordBytes (ns : List UInt64) : (wordBytes ns).length = 8 * ns.length := by
  simp [wordBytes, List.length_flatMap, List.map_const', Nat.mul_comm]

/-- A string has the size that is computed for it. -/
theorem Field.length_string {s : Option String} {bs : List UInt8} (h : string s = .ok bs) :
    bs.length = stringSize s := by
  obtain ⟨-, rfl⟩ := string_eq_ok_iff.mp h
  rw [List.length_append, LittleEndian.length_bytes]
  rfl

/-- An array has the size that is computed for it. -/
theorem Field.length_array {data : Option (List UInt8)} {bs : List UInt8} (h : array data = .ok bs) :
    bs.length = arraySize data := by
  obtain ⟨-, rfl⟩ := array_eq_ok_iff.mp h
  rw [List.length_append, LittleEndian.length_bytes]
  rfl

/-- A snapshot has the size that is computed for it. -/
theorem Snapshot.length_payload {s : Snapshot} {bs : List UInt8} (h : s.payload = .ok bs) :
    bs.length = s.payloadSize := by
  rw [payload, ite_ok_eq_ok_iff] at h
  obtain ⟨-, rfl⟩ := h
  have hvectors : (s.vectors.flatMap Vector.toList).length = 8 * s.vectors.length := by
    simp [List.length_flatMap, List.map_const', Nat.mul_comm]
  have hscalars : s.scalarWords.length = 20 := by simp [scalarWords]
  rw [List.length_append, List.length_append, length_wordBytes, length_wordBytes, hscalars, hvectors,
    LittleEndian.length_bytes, payloadSize]
  omega

namespace Record

/-- A payload has the size that is declared for it. -/
theorem length_payload {r : Record} {bs : List UInt8} (h : r.payload = .ok bs) :
    bs.length = r.payloadSize := by
  -- field by field, each with the size that is computed for it
  cases r with
  | cpuState s => exact Snapshot.length_payload h
  | step s =>
    rw [payload] at h
    obtain ⟨cs, hcode, h⟩ := bind_eq_ok_iff.mp h
    obtain ⟨ts, htext, h⟩ := bind_eq_ok_iff.mp h
    obtain ⟨ss, hstate, h⟩ := bind_eq_ok_iff.mp h
    cases h
    simp only [List.length_append, length_wordBytes, Field.length_array hcode,
      Field.length_string htext, Snapshot.length_payload hstate, List.length_cons, List.length_nil,
      payloadSize]
  | memoryEvent e =>
    cases h
    simp [MemoryEvent.payload, payloadSize]
  | location l =>
    rw [payload] at h
    obtain ⟨fs, hfilename, h⟩ := bind_eq_ok_iff.mp h
    obtain ⟨ss, hsymbol, h⟩ := bind_eq_ok_iff.mp h
    cases h
    simp only [List.length_append, length_wordBytes, Field.length_string hfilename,
      Field.length_string hsymbol, List.length_cons, List.length_nil, payloadSize]
  | systemLog l =>
    rw [payload] at h
    obtain ⟨ms, hmessage, h⟩ := bind_eq_ok_iff.mp h
    cases h
    simp only [List.length_append, length_wordBytes, Field.length_string hmessage,
      List.length_cons, List.length_nil, payloadSize]
  | endOfTrace =>
    cases h
    rfl

/-- Tags have four bytes. -/
theorem tag_lt (kind : RecordKind) : kind.tag < UInt32.size := by
  cases kind <;> decide

/-- A record is written as the frame of its kind and payload. -/
theorem frame_eq_ok_iff {r : Record} {bs : List UInt8} :
    r.frame = .ok bs ↔ ∃ f : Frame, f.tag = r.kind.tag ∧ r.payload = .ok f.payload ∧ bs = f.bytes := by
  rw [frame]
  constructor
  · intro h
    split at h
    · contradiction
    · next hlarge =>
      cases hpayload : r.payload with
      | error e => simp [hpayload] at h
      | ok payload =>
        simp only [hpayload, ite_ok_eq_ok_iff] at h
        obtain ⟨hlength, rfl⟩ := h
        refine ⟨⟨r.kind.tag, payload, tag_lt r.kind, by omega⟩, rfl, rfl, ?_⟩
        simp only [Frame.bytes, header, hlength]
  · rintro ⟨f, hkind, hpayload, rfl⟩
    have hlength := length_payload hpayload
    have hlt := f.length_lt
    rw [if_neg (by omega)]
    simp only [hpayload, Frame.bytes, header, hkind, hlength, if_true]

end Record

/-- A record is appended as its frame. -/
theorem TraceWriter.write_eq_ok_iff {r : Record} {v : Unit} {w w' : TraceWriter} :
    outcome (write r) w = (.ok v, w') ↔ ∃ frame, r.frame = .ok frame ∧ w' = append frame w := by
  rw [write]
  cases hframe : r.frame with
  | error e => simp
  | ok frame =>
    have hout : outcome (modify (append frame) : TraceM Unit) w = (.ok (), append frame w) := rfl
    simp [hout, eq_comm]

/-- Bytes are added behind those that are there. -/
theorem TraceWriter.byteList_append (frame : List UInt8) (w : TraceWriter) :
    byteList (append frame w).output = byteList w.output ++ frame := by
  obtain ⟨output, count⟩ := w
  show byteList (frame.foldl ByteArray.push output) = _
  induction frame generalizing output with
  | nil => simp
  | cons b frame ih =>
    rw [List.foldl_cons, ih]
    simp [byteList]

/-! ### Reading -/

variable {bs rest : List UInt8}

/-- Bytes are taken, and all that are left if there are too few. -/
theorem FieldReader.outcome_take (n : Nat) (bs : List UInt8) :
    outcome (take n) bs =
      (if (bs.take n).length = n then .ok (bs.take n) else .error .unexpectedEnd, bs.drop n) := by
  simp only [outcome, take, ExceptT.mk, ExceptT.run, StateT.run, List.splitAt_eq]
  split <;> rfl

/-- Bytes that were taken were in front. -/
theorem FieldReader.take_eq_ok_iff {n : Nat} {v : List UInt8} :
    outcome (take n) bs = (.ok v, rest) ↔ v.length = n ∧ bs = v ++ rest := by
  rw [outcome_take, Prod.mk.injEq, ite_ok_eq_ok_iff]
  constructor
  · rintro ⟨⟨hlength, rfl⟩, rfl⟩
    exact ⟨hlength, (List.take_append_drop n bs).symm⟩
  · rintro ⟨rfl, rfl⟩
    simp

/-- A number that was read was in front. -/
theorem FieldReader.number_eq_ok_iff {n v : Nat} :
    outcome (number n) bs = (.ok v, rest) ↔
      v < 256 ^ n ∧ bs = LittleEndian.bytes n v ++ rest := by
  rw [number, outcome_bind_eq_ok_iff]
  constructor
  · rintro ⟨digits, _, htake, h⟩
    cases h
    obtain ⟨rfl, rfl⟩ := take_eq_ok_iff.mp htake
    exact ⟨LittleEndian.value_lt digits, by rw [LittleEndian.bytes_value]⟩
  · rintro ⟨hv, rfl⟩
    refine ⟨LittleEndian.bytes n v, rest, take_eq_ok_iff.mpr ⟨LittleEndian.length_bytes n v, rfl⟩, ?_⟩
    rw [LittleEndian.value_bytes, Nat.mod_eq_of_lt hv, outcome_pure]

/-- A tag names one kind. -/
theorem RecordKind.ofTag?_eq_some_iff {n : Nat} {kind : RecordKind} :
    ofTag? n = some kind ↔ n = kind.tag := by
  constructor
  · intro h
    have hfound := List.find?_some h
    exact (of_decide_eq_true hfound).symm
  · rintro rfl
    exact ofTag?_tag kind

/-- Behind its header a record is read from its payload. -/
theorem readPayload_eq_ok_iff {kind : RecordKind} {declared : Nat} {r : Record} :
    outcome (readPayload kind declared) bs = (.ok r, rest) ↔
      ∃ payload, payload.length = declared ∧ bs = payload ++ rest ∧
        r.kind = kind ∧ r.Canonical ∧ r.payload = .ok payload := by
  have hreads := Record.reads_read kind ⟨bs, declared, 0⟩
  rw [readPayload, outcome_mk, run_run]
  constructor
  · intro h
    rcases hread : outcome (Record.read kind) ⟨bs, declared, 0⟩ with ⟨(needed | e) | v, p⟩
    · simp [hread] at h
    · simp [hread] at h
    · obtain ⟨payload, hr, htook⟩ := (hreads v p).mp hread
      simp only [hread] at h
      split at h
      -- all declared bytes were used, so the payload is what the record was read from
      · next hconsumed =>
        cases h
        refine ⟨payload, ?_, htook.rest, hr⟩
        rw [← hconsumed, htook.consumed, Nat.zero_add]
      · cases h
  · rintro ⟨payload, rfl, rfl, hr⟩
    have hread : outcome (Record.read kind) ⟨payload ++ rest, payload.length, 0⟩ =
        (.ok r, ⟨rest, 0, payload.length⟩) :=
      (hreads r _).mpr ⟨payload, hr, rfl, rfl, (Nat.zero_add _).symm⟩
    simp only [hread, if_true]

/-- What lies ahead where a stream yields `v` at once and leaves `rest`. -/
def Ahead : Option Record → List UInt8 → List UInt8 → Prop
  | none, tail, rest => tail = [] ∧ rest = []
  | some r, tail, rest => r.Canonical ∧ ∃ frame, r.frame = .ok frame ∧ tail = frame ++ rest

/-- Nothing lies ahead at the end of a stream. -/
theorem ahead_nil_iff {v : Option Record} : Ahead v [] rest ↔ v = none ∧ rest = [] := by
  cases v with
  | none => simp [Ahead]
  | some r =>
    refine iff_of_false ?_ nofun
    rintro ⟨-, frame, hframe, hempty⟩
    obtain ⟨f, -, -, rfl⟩ := Record.frame_eq_ok_iff.mp hframe
    exact f.append_ne_nil rest hempty.symm

/-- At the end of the stream there is no record. -/
theorem nextRecordIn_nil (bound : List UInt8) :
    outcome (nextRecordIn bound) [] = (.ok none, []) := by
  cases bound <;> rfl

/-- At the end of the stream there is nothing to skip. -/
theorem nextRecordIn_nil_eq_ok_iff {bound : List UInt8} {v : Option Record} :
    outcome (nextRecordIn bound) [] = (.ok v, rest) ↔
      ∃ skipped : List ForeignFrame, ∃ tail, [] = (skipped.flatMap fun f => f.bytes) ++ tail ∧
        Ahead v tail rest := by
  rw [nextRecordIn_nil]
  constructor
  · intro h
    cases h
    exact ⟨[], [], rfl, rfl, rfl⟩
  · rintro ⟨skipped, tail, hnil, hahead⟩
    obtain ⟨-, rfl⟩ := List.append_eq_nil_iff.mp hnil.symm
    obtain ⟨rfl, rfl⟩ := ahead_nil_iff.mp hahead
    rfl

/-- **One frame.** What is read next is in the first frame, or behind it where that is foreign. -/
theorem nextRecordIn_cons_eq_ok_iff {b : UInt8} {bound : List UInt8} {v : Option Record}
    (hbs : bs ≠ []) :
    outcome (nextRecordIn (b :: bound)) bs = (.ok v, rest) ↔
      ∃ f : Frame, ∃ after, bs = f.bytes ++ after ∧
        (f.Foreign ∧ outcome (nextRecordIn bound) after = (.ok v, rest) ∨
          ∃ r : Record, v = some r ∧ rest = after ∧ r.Canonical ∧ f.tag = r.kind.tag ∧
            r.payload = .ok f.payload) := by
  -- there are bytes, so a frame is looked for
  have hnonempty : ¬bs.isEmpty := fun h => hbs (List.isEmpty_iff.mp h)
  rw [nextRecordIn, outcome_bind, outcome_get]
  simp only [if_neg hnonempty, outcome_bind_eq_ok_iff]
  constructor
  -- whatever is read begins with a tag and a size
  · rintro ⟨tag, s, htag, declared, t, hdeclared, h⟩
    obtain ⟨hlt, rfl⟩ := FieldReader.number_eq_ok_iff.mp htag
    obtain ⟨hsize, rfl⟩ := FieldReader.number_eq_ok_iff.mp hdeclared
    split at h
    · next kind hkind =>
      obtain rfl := RecordKind.ofTag?_eq_some_iff.mp hkind
      obtain ⟨r, after, hread, h⟩ := outcome_bind_eq_ok_iff.mp h
      cases h
      obtain ⟨payload, rfl, rfl, rfl, hcanonical, hpayload⟩ := readPayload_eq_ok_iff.mp hread
      refine ⟨⟨r.kind.tag, payload, hlt, hsize⟩, rest, ?_,
        .inr ⟨r, rfl, rfl, hcanonical, rfl, hpayload⟩⟩
      simp [Frame.bytes]
    · next hforeign =>
      obtain ⟨payload, after, htake, hnext⟩ := outcome_bind_eq_ok_iff.mp h
      obtain ⟨rfl, rfl⟩ := FieldReader.take_eq_ok_iff.mp htake
      refine ⟨⟨tag, payload, hlt, hsize⟩, after, ?_, .inl ⟨hforeign, hnext⟩⟩
      simp [Frame.bytes]
  -- a frame is read field by field
  · rintro ⟨f, after, rfl, hframe⟩
    refine ⟨f.tag, LittleEndian.bytes 4 f.payload.length ++ (f.payload ++ after), ?_,
      f.payload.length, f.payload ++ after, ?_, ?_⟩
    · exact FieldReader.number_eq_ok_iff.mpr ⟨f.tag_lt, by simp [Frame.bytes]⟩
    · exact FieldReader.number_eq_ok_iff.mpr ⟨f.length_lt, rfl⟩
    · obtain ⟨hforeign, h⟩ | ⟨r, rfl, rfl, hcanonical, hkind, hpayload⟩ := hframe
      · rw [hforeign]
        exact outcome_bind_eq_ok_iff.mpr
          ⟨f.payload, after, FieldReader.take_eq_ok_iff.mpr ⟨rfl, rfl⟩, h⟩
      · rw [hkind, RecordKind.ofTag?_tag]
        refine outcome_bind_eq_ok_iff.mpr ⟨r, rest, readPayload_eq_ok_iff.mpr ?_, rfl⟩
        exact ⟨f.payload, rfl, rfl, rfl, hcanonical, hpayload⟩

/-- Foreign frames are skipped. -/
theorem nextRecordIn_eq_ok_iff {bound : List UInt8} {v : Option Record}
    (hbound : bs.length ≤ bound.length) :
    outcome (nextRecordIn bound) bs = (.ok v, rest) ↔
      ∃ skipped : List ForeignFrame, ∃ tail, bs = (skipped.flatMap fun f => f.bytes) ++ tail ∧
        Ahead v tail rest := by
  -- induction on the bound; every frame that is skipped is at least one byte long
  induction bound generalizing bs with
  | nil =>
    obtain rfl := List.eq_nil_of_length_eq_zero (Nat.le_zero.mp hbound)
    exact nextRecordIn_nil_eq_ok_iff
  | cons b bound ih =>
    obtain rfl | hbs := eq_or_ne bs []
    · exact nextRecordIn_nil_eq_ok_iff
    rw [nextRecordIn_cons_eq_ok_iff hbs]
    constructor
    · rintro ⟨f, after, rfl, ⟨hforeign, h⟩ | ⟨r, rfl, rfl, hcanonical, hkind, hpayload⟩⟩
      · obtain ⟨skipped, tail, rfl, hahead⟩ := (ih (f.le_of_append_le hbound)).mp h
        refine ⟨⟨f, hforeign⟩ :: skipped, tail, ?_, hahead⟩
        rw [List.flatMap_cons, List.append_assoc]
      · refine ⟨[], f.bytes ++ rest, rfl, hcanonical, f.bytes, ?_, rfl⟩
        exact Record.frame_eq_ok_iff.mpr ⟨f, hkind, hpayload, rfl⟩
    · rintro ⟨_ | ⟨f, skipped⟩, tail, rfl, hahead⟩
      · cases v with
        | none => exact absurd hahead.1 hbs
        | some r =>
          obtain ⟨hcanonical, frame, hframe, rfl⟩ := hahead
          obtain ⟨f, hkind, hpayload, rfl⟩ := Record.frame_eq_ok_iff.mp hframe
          exact ⟨f, rest, rfl, .inr ⟨r, rfl, rfl, hcanonical, hkind, hpayload⟩⟩
      · rw [List.flatMap_cons, List.append_assoc] at hbound ⊢
        have hafter := (ih (f.le_of_append_le hbound)).mpr ⟨skipped, tail, rfl, hahead⟩
        exact ⟨f.toFrame, _, rfl, .inl ⟨f.foreign, hafter⟩⟩

/-- As many frames as bytes are enough to look at. -/
theorem outcome_nextRecord : outcome nextRecord bs = outcome (nextRecordIn bs) bs := by
  rw [nextRecord, outcome_bind, outcome_get]

/-- **Records.** A record is read where foreign frames and its own frame lie ahead. -/
theorem nextRecord_eq_some_iff {r : Record} :
    outcome nextRecord bs = (.ok (some r), rest) ↔
      ∃ skipped : List ForeignFrame, ∃ frame,
        bs = (skipped.flatMap fun f => f.bytes) ++ (frame ++ rest) ∧
          r.Canonical ∧ r.frame = .ok frame := by
  rw [outcome_nextRecord, nextRecordIn_eq_ok_iff (Nat.le_refl _)]
  constructor
  · rintro ⟨skipped, _, rfl, hcanonical, frame, hframe, rfl⟩
    exact ⟨skipped, frame, rfl, hcanonical, hframe⟩
  · rintro ⟨skipped, frame, rfl, hcanonical, hframe⟩
    exact ⟨skipped, _, rfl, hcanonical, frame, hframe, rfl⟩

/-- **The end.** No record is read where nothing but foreign frames lies ahead. -/
theorem nextRecord_eq_none_iff :
    outcome nextRecord bs = (.ok none, rest) ↔
      rest = [] ∧ ∃ skipped : List ForeignFrame, bs = skipped.flatMap fun f => f.bytes := by
  rw [outcome_nextRecord, nextRecordIn_eq_ok_iff (Nat.le_refl _)]
  constructor
  · rintro ⟨skipped, _, rfl, rfl, rfl⟩
    exact ⟨rfl, skipped, List.append_nil _⟩
  · rintro ⟨rfl, skipped, rfl⟩
    exact ⟨skipped, [], (List.append_nil _).symm, rfl, rfl⟩

/-- A record that is read from a frame of a known kind is written as this frame. -/
theorem Frame.frame_of_known {f : Frame} {r : Record} (hknown : ¬f.Foreign)
    (h : outcome nextRecord (f.bytes ++ bs) = (.ok (some r), rest)) : r.frame = .ok f.bytes := by
  obtain ⟨_ | ⟨g, skipped⟩, frame, hbytes, -, hframe⟩ := nextRecord_eq_some_iff.mp h
  · obtain ⟨g, -, -, rfl⟩ := Record.frame_eq_ok_iff.mp hframe
    rw [hframe, (append_inj hbytes).1]
  · -- a skipped frame would be this one
    rw [List.flatMap_cons, List.append_assoc] at hbytes
    exact absurd ((append_inj hbytes).1 ▸ g.foreign) hknown

/-- **One encoding.** Where a record is read, the bytes that were used up are foreign frames and then the
    bytes that are written for the record; and different frames of known kinds are read as different
    records. -/
theorem nextRecord_canonical :
    (∀ (bs rest : List UInt8) (r : Record), outcome nextRecord bs = (.ok (some r), rest) →
      ∃ skipped : List ForeignFrame, ∃ frame,
        bs = (skipped.flatMap fun f => f.bytes) ++ frame ++ rest ∧
          ∀ w, ∃ w', outcome (TraceWriter.write r) w = (.ok (), w') ∧
            byteList w'.output = byteList w.output ++ frame) ∧
    ∀ (f g : Frame) (r r' : Record) (as bs as' bs' : List UInt8), ¬f.Foreign → ¬g.Foreign →
      outcome nextRecord (f.bytes ++ as) = (.ok (some r), as') →
      outcome nextRecord (g.bytes ++ bs) = (.ok (some r'), bs') → f ≠ g → r ≠ r' := by
  constructor
  · intro bs rest r h
    obtain ⟨skipped, frame, rfl, -, hframe⟩ := nextRecord_eq_some_iff.mp h
    refine ⟨skipped, frame, by rw [List.append_assoc], fun w => ⟨TraceWriter.append frame w, ?_, ?_⟩⟩
    · exact TraceWriter.write_eq_ok_iff.mpr ⟨frame, hframe, rfl⟩
    · exact TraceWriter.byteList_append frame w
  · rintro f g r _ as bs as' bs' hf hg has hbs hne rfl
    -- each of the frames is what is written for the record
    have hframe := Frame.frame_of_known hf has
    rw [Frame.frame_of_known hg hbs] at hframe
    have hbytes : g.bytes ++ [] = f.bytes ++ [] := by
      rw [Except.ok.inj hframe]
    exact hne (Frame.append_inj hbytes).1.symm

/-- A frame of an unknown kind. -/
def unknownFrame : ForeignFrame := ⟨⟨0x44434241, [1, 2], by decide, by decide⟩, by decide⟩

/-- The frame of a location at an offset in the file `a`. -/
def locationFrame (offset : UInt8) : Frame where
  tag := 0x30434f4c
  payload := [1, 0, 0x61, 0, 0, offset, 0, 0, 0, 0, 0, 0, 0, 0, 0x10, 0, 0, 0, 0, 0, 0]
  tag_lt := by decide
  length_lt := (by decide : 21 < UInt32.size)

/-- The location is read behind the unknown frame and written as it was, and at another offset it is
    another record. -/
theorem nextRecord_canonical_location :
    (∃ skipped : List ForeignFrame, ∃ frame,
      unknownFrame.bytes ++ (locationFrame 1).bytes ++ [9] =
          (skipped.flatMap fun f => f.bytes) ++ frame ++ [9] ∧
        ∀ w, ∃ w', outcome (TraceWriter.write (.location ⟨some "a", none, 1, 0x1000⟩)) w =
            (.ok (), w') ∧ byteList w'.output = byteList w.output ++ frame) ∧
      Record.location ⟨some "a", none, 1, 0x1000⟩ ≠ .location ⟨some "a", none, 2, 0x1000⟩ := by
  have hread : outcome nextRecord (unknownFrame.bytes ++ (locationFrame 1).bytes ++ [9]) =
      (.ok (some (.location ⟨some "a", none, 1, 0x1000⟩)), [9]) := by decide +kernel
  have hfirst : outcome nextRecord ((locationFrame 1).bytes ++ []) =
      (.ok (some (.location ⟨some "a", none, 1, 0x1000⟩)), []) := by decide +kernel
  have hsecond : outcome nextRecord ((locationFrame 2).bytes ++ []) =
      (.ok (some (.location ⟨some "a", none, 2, 0x1000⟩)), []) := by decide +kernel
  have hne : locationFrame 1 ≠ locationFrame 2 := fun h =>
    absurd (congrArg Frame.payload h) (by decide)
  exact ⟨nextRecord_canonical.1 _ _ _ hread, nextRecord_canonical.2 (locationFrame 1) (locationFrame 2)
    _ _ [] [] [] [] (by decide) (by decide) hfirst hsecond hne⟩

end Amd64
