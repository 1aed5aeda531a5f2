import Amd64.Proofs.Trace.Framing

namespace Amd64

/-!
# Traces are read as they were written

A trace holds the records that were written to it.  Others may have put frames in between that belong to no
record; readers take no notice of them.

* `Record.normalize`    — a record as it is read;
* `TraceItem`           — what a trace is made of, and how it is appended;
* `Yields`              — the records that a stream yields before it ends;
* `yields_writeAll`     — these are the records that were appended;
* `readTrace_writeAll`  — so a reader finds them in order, and then nothing any more.
-/

namespace Record

/-- A record as it is read: a string that may be absent and is empty is absent. -/
def normalize : Record → Record
  | step s => step { s with disassembly := Field.normalize s.disassembly }
  | location l =>
    location { l with
      filename := Field.normalize l.filename
      symbol := Field.normalize l.symbol }
  | r => r

/-- Records that can be read are read as they are. -/
theorem normalize_eq_self {r : Record} (h : r.Canonical) : r.normalize = r := by
  cases r with
  | step s => rw [normalize, Field.normalize_eq_self h]
  | location l => rw [normalize, Field.normalize_eq_self h.1, Field.normalize_eq_self h.2]
  | cpuState s => rfl
  | memoryEvent e => rfl
  | systemLog l => rfl
  | endOfTrace => rfl

/-- What is normalized is of the same kind. -/
@[simp] theorem kind_normalize (r : Record) : r.normalize.kind = r.kind := by
  cases r <;> rfl

/-- What is normalized has the same payload. -/
@[simp] theorem payload_normalize (r : Record) : r.normalize.payload = r.payload := by
  cases r <;> simp only [normalize, payload, Field.string_normalize]

/-- Both forms of a record are written alike. -/
theorem frame_normalize {r : Record} {bs : List UInt8} :
    r.normalize.frame = .ok bs ↔ r.frame = .ok bs := by
  rw [frame_eq_ok_iff, frame_eq_ok_iff, kind_normalize, payload_normalize]

/-- The other form can be read, if an access has a size that accesses have. -/
theorem canonical_normalize {r : Record}
    (h : ∀ e, r = memoryEvent e → e.size.toNat ∈ [1, 2, 4, 8, 16]) : r.normalize.Canonical := by
  cases r with
  | step s => exact Field.normalize_ne s.disassembly
  | memoryEvent e => exact h e rfl
  | location l => exact ⟨Field.normalize_ne l.filename, Field.normalize_ne l.symbol⟩
  | cpuState s => trivial
  | systemLog l => trivial
  | endOfTrace => trivial

end Record

/-! ### What a trace is made of -/

/-- A part of a trace. -/
inductive TraceItem where
  | record (r : Record)
  | foreign (f : ForeignFrame)

namespace TraceItem

/-- The record that is read from a part. -/
def read? : TraceItem → Option Record
  | record r => some r.normalize
  | foreign _ => none

/-- Appends a part. -/
def write : TraceItem → TraceM Unit
  | record r => TraceWriter.write r
  | foreign f => modify fun w => { w with output := w.output ++ packed f.bytes }

/-- Appends all parts and, where the trace is finished, its end. -/
def writeAll (finished : Bool) : List TraceItem → TraceM Unit
  | [] => if finished then TraceWriter.finish else pure ()
  | item :: items => do
    item.write
    writeAll finished items

/-- The records that are read from the parts and from the end. -/
def records (finished : Bool) (items : List TraceItem) : List Record :=
  items.filterMap read? ++ if finished then [.endOfTrace] else []

end TraceItem

/-! ### What a trace yields -/

/-- A stream yields the records one after the other, and then ends. -/
def Yields : List Record → List UInt8 → Prop
  | [], bs => outcome nextRecord bs = (.ok none, [])
  | r :: rs, bs => ∃ after, outcome nextRecord bs = (.ok (some r), after) ∧ Yields rs after

section
variable {rs : List Record} {bs : List UInt8}

theorem yields_nil : Yields [] [] :=
  nextRecord_eq_none_iff.mpr ⟨rfl, [], rfl⟩

/-- The frame of a record yields it. -/
theorem Yields.record {r : Record} {frame : List UInt8} (h : Yields rs bs) (hcanonical : r.Canonical)
    (hframe : r.frame = .ok frame) : Yields (r :: rs) (frame ++ bs) :=
  ⟨bs, nextRecord_eq_some_iff.mpr ⟨[], frame, rfl, hcanonical, hframe⟩, h⟩

/-- A foreign frame yields nothing. -/
theorem Yields.foreign (f : ForeignFrame) (h : Yields rs bs) : Yields rs (f.bytes ++ bs) := by
  cases rs with
  | nil =>
    obtain ⟨-, skipped, rfl⟩ := nextRecord_eq_none_iff.mp h
    exact nextRecord_eq_none_iff.mpr ⟨rfl, f :: skipped, rfl⟩
  | cons r rs =>
    obtain ⟨after, hnext, h⟩ := h
    obtain ⟨skipped, frame, rfl, hr⟩ := nextRecord_eq_some_iff.mp hnext
    refine ⟨after, nextRecord_eq_some_iff.mpr ⟨f :: skipped, frame, ?_, hr⟩, h⟩
    rw [List.flatMap_cons, List.append_assoc]

/-- Every record takes a byte. -/
theorem Yields.length_le (h : Yields rs bs) : rs.length ≤ bs.length := by
  induction rs generalizing bs with
  | nil => exact Nat.zero_le _
  | cons r rs ih =>
    obtain ⟨after, hnext, h⟩ := h
    obtain ⟨skipped, _, rfl, -, hframe⟩ := nextRecord_eq_some_iff.mp hnext
    obtain ⟨f, -, -, rfl⟩ := Record.frame_eq_ok_iff.mp hframe
    have hafter := ih h
    have hpos : 0 < f.bytes.length := by simp [Frame.bytes]
    simp only [List.length_append, List.length_cons]
    omega

end

namespace TraceItem

/-- One part in front of a stream adds its record to what the stream yields. -/
theorem yields_write {item : TraceItem} {w w' : TraceWriter}
    (hsize : ∀ e, item = record (.memoryEvent e) → e.size.toNat ∈ [1, 2, 4, 8, 16])
    (h : outcome item.write w = (.ok (), w')) :
    ∃ bs, byteList w'.output = byteList w.output ++ bs ∧
      ∀ rs after, Yields rs after → Yields (item.read?.toList ++ rs) (bs ++ after) := by
  cases item with
  | record r =>
    obtain ⟨frame, hframe, rfl⟩ := TraceWriter.write_eq_ok_iff.mp h
    refine ⟨frame, TraceWriter.byteList_append frame w, fun rs after hafter => ?_⟩
    have hcanonical : r.normalize.Canonical :=
      Record.canonical_normalize fun e he => hsize e (by rw [he])
    exact hafter.record hcanonical (Record.frame_normalize.mpr hframe)
  | foreign f =>
    obtain rfl : { w with output := w.output ++ packed f.bytes } = w' := (Prod.mk.inj h).2
    refine ⟨f.bytes, ?_, fun rs after hafter => hafter.foreign f⟩
    rw [byteList_append, byteList_packed]

/-- **Records of a trace.** What was appended yields the records that were appended. -/
theorem yields_writeAll {finished : Bool} {items : List TraceItem} {w w' : TraceWriter}
    (hsize : ∀ e, record (.memoryEvent e) ∈ items → e.size.toNat ∈ [1, 2, 4, 8, 16])
    (h : outcome (writeAll finished items) w = (.ok (), w')) :
    ∃ bs, byteList w'.output = byteList w.output ++ bs ∧ Yields (records finished items) bs := by
  -- on the items; each adds the bytes of its own frame behind those of the frames before it
  induction items generalizing w with
  | nil =>
    cases finished with
    | false =>
      obtain rfl : w = w' := (Prod.mk.inj h).2
      exact ⟨[], (List.append_nil _).symm, yields_nil⟩
    | true =>
      have hend : outcome (write (.record .endOfTrace)) w = (.ok (), w') := h
      obtain ⟨bs, hbs, hyields⟩ := yields_write (fun e he => by cases he) hend
      refine ⟨bs, hbs, ?_⟩
      have hlast := hyields [] [] yields_nil
      rwa [List.append_nil, List.append_nil] at hlast
  | cons item items ih =>
    obtain ⟨⟨⟩, v, hfirst, hrest⟩ := outcome_bind_eq_ok_iff.mp h
    obtain ⟨after, hafter, hyields⟩ := ih (fun e he => hsize e (List.mem_cons_of_mem item he)) hrest
    have hitem : ∀ e, item = record (.memoryEvent e) → e.size.toNat ∈ [1, 2, 4, 8, 16] :=
      fun e he => hsize e (he ▸ List.mem_cons_self)
    obtain ⟨bs, hbs, hmore⟩ := yields_write hitem hfirst
    refine ⟨bs ++ after, by rw [hafter, hbs, List.append_assoc], ?_⟩
    -- a frame of unknown kind adds bytes but no record
    have hrecords : records finished (item :: items) =
        item.read?.toList ++ records finished items := by
      cases hread : item.read? <;> simp [records, hread]
    rw [hrecords]
    exact hmore _ after hyields

end TraceItem

/-! ### Readers -/

/-- The results of `n` attempts to read a record. -/
def nextRecords : Nat → FieldReader (List (Option Record))
  | 0 => return []
  | n + 1 => do
    let r ← nextRecord
    return r :: (← nextRecords n)

section
variable {rs : List Record} {bs : List UInt8}

/-- A record is read, then the others. -/
theorem nextRecords_succ_eq_ok {n : Nat} {r : Option Record} {after rest : List UInt8}
    {later : List (Option Record)} (hnext : outcome nextRecord bs = (.ok r, after))
    (hlater : outcome (nextRecords n) after = (.ok later, rest)) :
    outcome (nextRecords (n + 1)) bs = (.ok (r :: later), rest) := by
  rw [nextRecords, outcome_bind_eq_ok_iff]
  refine ⟨r, after, hnext, ?_⟩
  rw [outcome_bind_eq_ok_iff]
  exact ⟨later, rest, hlater, rfl⟩

/-- At the end of a stream there is no record, as often as one asks. -/
theorem outcome_nextRecords_nil (n : Nat) :
    outcome (nextRecords n) [] = (.ok (List.replicate n none), []) := by
  induction n with
  | zero => rfl
  | succ n ih => exact nextRecords_succ_eq_ok yields_nil ih

/-- A stream ends behind the records that it yields. -/
theorem Yields.outcome_nextRecords (h : Yields rs bs) (n : Nat) :
    outcome (nextRecords (rs.length + (n + 1))) bs =
      (.ok (rs.map some ++ List.replicate (n + 1) none), []) := by
  induction rs generalizing bs with
  | nil =>
    rw [List.length_nil, Nat.zero_add]
    exact nextRecords_succ_eq_ok h (outcome_nextRecords_nil n)
  | cons r rs ih =>
    obtain ⟨after, hnext, h⟩ := h
    rw [List.length_cons, Nat.add_right_comm]
    exact nextRecords_succ_eq_ok hnext (ih h)

/-- No error is met, so that the number of errors to be put up with does not matter. -/
theorem Yields.readRecords_eq (h : Yields rs bs) {n errors : Nat} (hn : rs.length < n)
    (herrors : errors ≠ 0) : readRecords n errors bs = (rs.map .ok, []) := by
  -- induction on the attempts, each of which yields the next record
  induction n generalizing rs bs with
  | zero => exact absurd hn (Nat.not_lt_zero _)
  | succ n ih =>
    rw [readRecords, if_neg herrors, run_run]
    cases rs with
    | nil =>
      rw [Yields] at h
      simp [h]
    | cons r rs =>
      obtain ⟨after, hnext, h⟩ := h
      have hlater := ih h (Nat.lt_of_succ_lt_succ hn)
      simp [hnext, hlater]

/-- A reader of the whole stream finds what it yields. -/
theorem Yields.readTrace_eq (h : Yields rs bs) {errors : Nat} (herrors : errors ≠ 0) :
    readTrace errors bs = (rs.map .ok, []) :=
  h.readRecords_eq (Nat.lt_succ_of_le h.length_le) herrors

end

/-- **Round trip.** Whatever records are written, and whatever frames of unknown kinds are put in between, a
    reader finds the records in order, with the end of the trace behind them where it was finished, and then
    nothing any more, as often as it asks; and a reader of the whole trace finds the same. -/
theorem readTrace_writeAll (finished : Bool) (items : List TraceItem) (w : TraceWriter)
    (hsize : ∀ e, TraceItem.record (.memoryEvent e) ∈ items → e.size.toNat ∈ [1, 2, 4, 8, 16])
    (hwritten : outcome (TraceItem.writeAll finished items) TraceWriter.empty = (.ok (), w)) :
    (∀ n, outcome (nextRecords ((TraceItem.records finished items).length + (n + 1)))
        (byteList w.output) =
      (.ok ((TraceItem.records finished items).map some ++ List.replicate (n + 1) none), [])) ∧
    ∀ errors, errors ≠ 0 →
      readTrace errors (byteList w.output) = ((TraceItem.records finished items).map .ok, []) := by
  obtain ⟨bs, hbs, hyields⟩ := TraceItem.yields_writeAll hsize hwritten
  have houtput : byteList w.output = bs := hbs
  rw [houtput]
  refine ⟨hyields.outcome_nextRecords, fun errors herrors => ?_⟩
  exact hyields.readTrace_eq herrors

/-- A location whose file name is empty, a frame of an unknown kind and an access. -/
def mixedItems : List TraceItem :=
  [.record (.location ⟨some "", some "main", 0, 0x1000⟩), .foreign unknownFrame,
    .record (.memoryEvent ⟨0x2000, 4, true, 7⟩)]

/-- The location is read without a file name, and then the access and the end. -/
theorem readTrace_writeAll_mixedItems :
    readTrace 1 (byteList (outcome (TraceItem.writeAll true mixedItems) .empty).2.output) =
      ([.ok (.location ⟨none, some "main", 0, 0x1000⟩), .ok (.memoryEvent ⟨0x2000, 4, true, 7⟩),
        .ok .endOfTrace], []) := by
  have haccepted : (outcome (TraceItem.writeAll true mixedItems) .empty).1 = .ok () := by
    decide +kernel
  have hsize : ∀ e, TraceItem.record (.memoryEvent e) ∈ mixedItems →
      e.size.toNat ∈ [1, 2, 4, 8, 16] := by
    intro e he
    simp only [mixedItems, List.mem_cons, TraceItem.record.injEq, reduceCtorEq, false_or,
      Record.memoryEvent.injEq, List.not_mem_nil, or_false] at he
    subst he
    decide
  exact (readTrace_writeAll true mixedItems _ hsize (Prod.ext haccepted rfl)).2 1 Nat.one_ne_zero

end Amd64
