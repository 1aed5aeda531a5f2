import Amd64.Proofs.Trace.Framing

namespace Amd64

/-!
# Writing records

A record is appended as a whole or refused, and the payload is made field by field before it is known whether
all of it can be made.

* `Record.Refused`            — why a record is refused;
* `AcceptsIf`                 — bytes are made exactly under a condition; without it something is corrupt;
* `Record.frame_cases`        — a frame has the size that is computed without it, or the record is refused;
* `TraceWriter.Written`       — what may become of a write;
* `TraceWriter.after`         — a trace after writes, some of them refused;
* `TraceWriter.records_after` — its counter does not go around;
* `TraceWriter.write_appends` — one write, and what is in a trace after any writes.
-/

/-! ### Refusals -/

namespace Record

/-- The strings of a record. -/
def strings : Record → List (Option String)
  | step s => [s.disassembly]
  | location l => [l.filename, l.symbol]
  | systemLog l => [some l.message]
  | _ => []

/-- The registers in a record. -/
def snapshots : Record → List Snapshot
  | cpuState s => [s]
  | step s => [s.state]
  | _ => []

/-- Something does not fit into the field that counts it. -/
def Refused (r : Record) : Prop :=
  (∃ s ∈ r.strings, 65535 < (s.getD "").utf8ByteSize) ∨
    (∃ s ∈ r.snapshots, 32 < s.vectors.length) ∨ 2 ^ 32 - 1 < r.payloadSize

end Record

/-- Bytes are made if `P`, and otherwise something is corrupt. -/
inductive AcceptsIf (P : Prop) : Except TraceError (List UInt8) → Prop where
  | accepted (h : P) (bs : List UInt8) : AcceptsIf P (.ok bs)
  | refused (h : ¬P) (problem : FieldProblem) : AcceptsIf P (.error (.corrupt problem))

namespace AcceptsIf

variable {P Q : Prop} {x : Except TraceError (List UInt8)}

theorem congr (h : AcceptsIf P x) (hPQ : P ↔ Q) : AcceptsIf Q x := by
  cases h with
  | accepted h bs => exact .accepted (hPQ.mp h) bs
  | refused h problem => exact .refused (fun hQ => h (hPQ.mpr hQ)) problem

/-- All fields have to be accepted. -/
theorem bind {f : List UInt8 → Except TraceError (List UInt8)} (hx : AcceptsIf P x)
    (hf : ∀ bs, AcceptsIf Q (f bs)) : AcceptsIf (P ∧ Q) (x >>= f) := by
  cases hx with
  | accepted h bs => exact (hf bs).congr (and_iff_right h).symm
  | refused h problem => exact .refused (fun hPQ => h hPQ.1) problem

theorem ite {c : Prop} [Decidable c] (bs : List UInt8) (problem : FieldProblem) :
    AcceptsIf c (if c then .ok bs else .error (.corrupt problem)) := by
  split
  · next h => exact .accepted h bs
  · next h => exact .refused h problem

end AcceptsIf

/-- A string is accepted if its size fits into two bytes. -/
theorem Field.acceptsIf_string (s : Option String) :
    AcceptsIf ((s.getD "").utf8ByteSize < UInt16.size) (string s) :=
  .ite _ _

/-- An array is accepted if its size fits into four bytes. -/
theorem Field.acceptsIf_array (data : Option (List UInt8)) :
    AcceptsIf ((data.getD []).length < UInt32.size) (array data) :=
  .ite _ _

/-- A snapshot is accepted if it has few enough registers. -/
theorem Snapshot.acceptsIf_payload (s : Snapshot) : AcceptsIf (s.vectors.length ≤ maxVectors) s.payload :=
  .ite _ _

namespace Record

/-- Whether the fields of a record can be written, whatever their size taken together. -/
def FieldsFit : Record → Prop
  | cpuState s => s.vectors.length ≤ Snapshot.maxVectors
  | step s => s.code.length < UInt32.size ∧ (s.disassembly.getD "").utf8ByteSize < UInt16.size ∧
      s.state.vectors.length ≤ Snapshot.maxVectors
  | location l => (l.filename.getD "").utf8ByteSize < UInt16.size ∧
      (l.symbol.getD "").utf8ByteSize < UInt16.size
  | systemLog l => l.message.utf8ByteSize < UInt16.size
  | _ => True

/-- A payload is made if all of its fields are accepted. -/
theorem acceptsIf_payload (r : Record) : AcceptsIf r.FieldsFit r.payload := by
  have hdone : ∀ bs, AcceptsIf True (pure bs) := fun bs => .accepted trivial bs
  cases r with
  | cpuState s => exact s.acceptsIf_payload
  | step s =>
    refine (AcceptsIf.bind (Field.acceptsIf_array (some s.code)) fun code =>
      AcceptsIf.bind (Field.acceptsIf_string s.disassembly) fun disassembly =>
      AcceptsIf.bind s.state.acceptsIf_payload fun state => hdone _).congr ?_
    simp [FieldsFit]
  | memoryEvent e => exact hdone _
  | location l =>
    refine (AcceptsIf.bind (Field.acceptsIf_string l.filename) fun filename =>
      AcceptsIf.bind (Field.acceptsIf_string l.symbol) fun symbol => hdone _).congr ?_
    simp [FieldsFit]
  | systemLog l =>
    refine (AcceptsIf.bind (Field.acceptsIf_string (some l.message)) fun message => hdone _).congr ?_
    simp [FieldsFit]
  | endOfTrace => exact hdone _

/-- An array that is too long makes the payload too long. -/
theorem refused_iff (r : Record) : r.Refused ↔ ¬(r.payloadSize < UInt32.size ∧ r.FieldsFit) := by
  have hbounds : UInt16.size = 65536 ∧ UInt32.size = 4294967296 ∧ Snapshot.maxVectors = 32 := ⟨rfl, rfl, rfl⟩
  cases r with
  | step s =>
    have harray : s.code.length ≤ (step s).payloadSize := by
      simp only [payloadSize, Field.arraySize, Option.getD_some]
      omega
    simp [Refused, FieldsFit, strings, snapshots, hbounds]
    omega
  | cpuState _ | memoryEvent _ | location _ | systemLog _ | endOfTrace =>
    simp [Refused, FieldsFit, strings, snapshots, hbounds]
    omega

/-- **Frames.** The payload has the size that the header says, or the record is refused. In particular no frame
    is ever of another size than was computed. -/
theorem frame_cases (r : Record) :
    (¬r.Refused ∧ ∃ payload, r.payload = .ok payload ∧ payload.length = r.payloadSize ∧
        r.frame = .ok (r.header ++ payload)) ∨
      (r.Refused ∧ ∃ problem, r.frame = .error (.corrupt problem)) := by
  rw [refused_iff, not_not, frame]
  by_cases hsize : r.payloadSize < UInt32.size
  · have hpayload := r.acceptsIf_payload
    rw [if_neg (Nat.not_le.mpr hsize)]
    generalize hp : r.payload = x at hpayload ⊢
    cases hpayload with
    | accepted h bs =>
      have hlength := length_payload hp
      exact .inl ⟨⟨hsize, h⟩, bs, rfl, hlength, if_pos hlength⟩
    | refused h problem => exact .inr ⟨fun hfit => h hfit.2, problem, rfl⟩
  · rw [if_pos (Nat.not_lt.mp hsize)]
    exact .inr ⟨fun hfit => hsize hfit.1, .longPayload, rfl⟩

/-- A header has a tag and a size. -/
theorem length_header (r : Record) : r.header.length = 8 := by
  simp [header]

end Record

/-! ### Traces -/

namespace TraceWriter

/-- The counter goes up by one, and around at its end. -/
theorem records_append (frame : List UInt8) (w : TraceWriter) :
    (append frame w).records = (w.records + 1) % 2 ^ 64 :=
  UInt64.toNat_add w.count 1

/-- What may become of a write of `r` to `w`: the header is appended and exactly as many bytes as it says, or
    the trace is left and something is corrupt. -/
inductive Written (r : Record) (w : TraceWriter) : Except TraceError Unit × TraceWriter → Prop where
  | appended {payload : List UInt8} {w' : TraceWriter} (fits : ¬r.Refused)
      (frame : r.frame = .ok (r.header ++ payload)) (header : r.header.length = 8)
      (size : payload.length = r.payloadSize)
      (output : byteList w'.output = byteList w.output ++ (r.header ++ payload))
      (records : w'.records = (w.records + 1) % 2 ^ 64) : Written r w (.ok (), w')
  | refused {problem : FieldProblem} (refused : r.Refused) (frame : r.frame = .error (.corrupt problem)) :
      Written r w (.error (.corrupt problem), w)

/-- **One write.** -/
theorem written_write (r : Record) (w : TraceWriter) : Written r w (outcome (write r) w) := by
  obtain ⟨hfits, payload, -, hlength, hframe⟩ | ⟨hrefused, problem, hframe⟩ := r.frame_cases
  · have hwrite : outcome (write r) w = (.ok (), append (r.header ++ payload) w) :=
      write_eq_ok_iff.mpr ⟨_, hframe, rfl⟩
    rw [hwrite]
    exact .appended hfits hframe r.length_header hlength (byteList_append _ w) (records_append _ w)
  · have hwrite : outcome (write r) w = (.error (.corrupt problem), w) := by
      rw [write, hframe]
      rfl
    rw [hwrite]
    exact .refused hrefused hframe

/-- The trace after writes one after the other, each of them tried whatever became of those before. -/
def after (w : TraceWriter) (rs : List Record) : TraceWriter :=
  rs.foldl (fun w r => (outcome (write r) w).2) w

/-- The frames of the records that are accepted. -/
def acceptedFrames (rs : List Record) : List (List UInt8) :=
  rs.filterMap fun r => r.frame.toOption

/-- One write, then the others. -/
theorem after_cons (w : TraceWriter) (r : Record) (rs : List Record) :
    w.after (r :: rs) = (outcome (write r) w).2.after rs := rfl

/-- An accepted record adds its frame. -/
theorem acceptedFrames_of_ok {r : Record} {frame : List UInt8} (h : r.frame = .ok frame) (rs : List Record) :
    acceptedFrames (r :: rs) = frame :: acceptedFrames rs := by
  simp [acceptedFrames, h, Except.toOption]

/-- A refused record adds nothing. -/
theorem acceptedFrames_of_error {r : Record} {e : TraceError} (h : r.frame = .error e) (rs : List Record) :
    acceptedFrames (r :: rs) = acceptedFrames rs := by
  simp [acceptedFrames, h, Except.toOption]

/-- After any writes a trace has the frames that were accepted, and as many records, up to the end of the
    counter. -/
theorem after_frames (w : TraceWriter) (rs : List Record) :
    byteList (w.after rs).output = byteList w.output ++ (acceptedFrames rs).flatten ∧
      (w.after rs).records = (w.records + (acceptedFrames rs).length) % 2 ^ 64 := by
  induction rs generalizing w with
  | nil =>
    exact ⟨(List.append_nil _).symm, (Nat.mod_eq_of_lt w.count.toNat_lt).symm⟩
  | cons r rs ih =>
    have hwritten := written_write r w
    rw [after_cons]
    generalize outcome (write r) w = result at hwritten ⊢
    cases hwritten with
    | appended fits frame header size output records =>
      rw [acceptedFrames_of_ok frame, (ih _).1, (ih _).2, output, records]
      simp only [List.flatten_cons, List.append_assoc, List.length_cons, Nat.mod_add_mod, Nat.add_assoc,
        Nat.add_comm 1, and_self]
    | refused refused frame =>
      rw [acceptedFrames_of_error frame]
      exact ih w

/-- The trace has room for the records that it counts, each of which has a header of eight bytes in it. -/
def HoldsRecords (w : TraceWriter) : Prop :=
  8 * w.records ≤ w.output.size

/-- Every accepted frame has its header. -/
theorem length_acceptedFrames_le (rs : List Record) :
    8 * (acceptedFrames rs).length ≤ (acceptedFrames rs).flatten.length := by
  induction rs with
  | nil => exact Nat.le_refl 0
  | cons r rs ih =>
    obtain ⟨-, payload, -, -, hframe⟩ | ⟨-, problem, hframe⟩ := r.frame_cases
    · rw [acceptedFrames_of_ok hframe]
      simp only [List.length_cons, List.flatten_cons, List.length_append, r.length_header]
      omega
    · rw [acceptedFrames_of_error hframe]
      exact ih

/-- **The counter** does not come to its end while all that was written can be addressed. -/
theorem records_after {w : TraceWriter} {rs : List Record} (h : w.HoldsRecords)
    (hsize : (w.after rs).output.size < 2 ^ 64) :
    (w.after rs).records = w.records + (acceptedFrames rs).length ∧ (w.after rs).HoldsRecords := by
  obtain ⟨houtput, hrecords⟩ := after_frames w rs
  have hlength := congrArg List.length houtput
  rw [List.length_append, length_byteList, length_byteList] at hlength
  have hframes := length_acceptedFrames_le rs
  rw [HoldsRecords] at h
  have hexact : (w.after rs).records = w.records + (acceptedFrames rs).length :=
    hrecords.trans (Nat.mod_eq_of_lt (by omega))
  refine ⟨hexact, ?_⟩
  rw [HoldsRecords, hexact]
  omega

/-- **Writing.** A write appends the header and exactly as many bytes of payload as the header says, and counts
    the record; or it leaves the trace because a string, a snapshot or the payload is too long, and for no
    other reason. So a trace is made of the frames of the accepted records, whatever was refused between
    them, and it counts these records: the counter is a word, and would go around only in a trace of more bytes
    than there are addresses. -/
theorem write_appends :
    (∀ (r : Record) (w : TraceWriter), Written r w (outcome (write r) w)) ∧
    (∀ (w : TraceWriter) (rs : List Record),
      byteList (w.after rs).output = byteList w.output ++ (acceptedFrames rs).flatten ∧
        (w.after rs).records = (w.records + (acceptedFrames rs).length) % 2 ^ 64) ∧
    ∀ (w : TraceWriter) (rs : List Record), w.HoldsRecords → (w.after rs).output.size < 2 ^ 64 →
      (w.after rs).records = w.records + (acceptedFrames rs).length ∧ (w.after rs).HoldsRecords :=
  ⟨written_write, after_frames, fun _ _ => records_after⟩

/-- Two records in a new trace, and between them one with too many registers, which is refused. -/
theorem write_appends_refusedBetween :
    let crowded : Snapshot := ⟨0, 0, Vector.replicate 16 0, 0, 0, List.replicate 33 (Vector.replicate 8 0)⟩
    let trace := empty.after [.endOfTrace, .cpuState crowded, .endOfTrace]
    (Record.cpuState crowded).Refused ∧ empty.HoldsRecords ∧ trace.output.size = 16 ∧ trace.records = 2 := by
  intro crowded trace
  have hrefused : (Record.cpuState crowded).Refused := .inr (.inl ⟨crowded, .head _, by decide⟩)
  have hempty : empty.HoldsRecords := Nat.le_refl 0
  have hsize : trace.output.size = 16 := by decide +kernel
  have hframes : (acceptedFrames [.endOfTrace, .cpuState crowded, .endOfTrace]).length = 2 := by decide +kernel
  have hcounted := (write_appends.2.2 empty _ hempty (hsize.trans_lt (by decide))).1
  exact ⟨hrefused, hempty, hsize, hcounted.trans (congrArg (0 + ·) hframes)⟩

end TraceWriter

end Amd64
