import Amd64.Proofs.Machine.Equivalence
import Amd64.Proofs.Trace.Framing
import Amd64.Trace.Recorder

namespace Amd64

/-!
# What a recorder writes is accepted

Writers refuse strings that are too long, code of more bytes than an instruction has, and snapshots with too
many vector registers.  None of this can come of a run.

* `Record.Accepted`      — writers accept a record; they do accept all that a recorder writes of a run;
* `Recorder.Same`        — machines that a recorder may take for each other;
* `Recorder.Unobtrusive` — a part of recording that succeeds and leaves such a machine.
-/

/-! ### Records that are written -/

/-- A string that is short enough is written. -/
theorem Field.exists_string {s : Option String} (h : (s.getD "").utf8ByteSize < UInt16.size) :
    ∃ bs, string s = .ok bs ∧ bs.length < 2 + UInt16.size := by
  refine ⟨_, string_eq_ok_iff.mpr ⟨h, rfl⟩, ?_⟩
  rw [List.length_append, LittleEndian.length_bytes]
  exact Nat.add_lt_add_left h 2

/-- The bytes of an instruction are written. -/
theorem Field.exists_array {data : List UInt8} (h : data.length ≤ Encoding.maxSize) :
    ∃ bs, array (some data) = .ok bs ∧ bs.length ≤ 4 + Encoding.maxSize := by
  have hlt : data.length < UInt32.size := Nat.lt_of_le_of_lt h (by decide)
  refine ⟨_, array_eq_ok_iff.mpr ⟨hlt, rfl⟩, ?_⟩
  rw [List.length_append, LittleEndian.length_bytes]
  exact Nat.add_le_add_left h 4

/-- The vector registers of a processor fit into a record. -/
theorem Cpu.length_vectors_snapshot_le (s : Cpu) :
    s.snapshot.vectors.length ≤ Snapshot.maxVectors := by
  have hlength : s.snapshot.vectors.length = 16 := by simp [Cpu.snapshot]
  rw [hlength]
  decide

/-- A snapshot with few enough registers is written. -/
theorem Snapshot.exists_payload {s : Snapshot} (h : s.vectors.length ≤ maxVectors) :
    ∃ bs, s.payload = .ok bs ∧ bs.length ≤ 164 + 64 * maxVectors := by
  have hpayload : s.payload = .ok _ := if_pos h
  refine ⟨_, hpayload, ?_⟩
  rw [length_payload hpayload, payloadSize]
  omega

namespace Record

/-- Writers accept the record. -/
def Accepted (r : Record) : Prop :=
  ∃ frame, r.frame = .ok frame

/-- A payload that can be made and is short enough makes the record accepted. -/
theorem accepted_of_payload {r : Record} {bs : List UInt8} (h : r.payload = .ok bs)
    (hlength : bs.length < UInt32.size) : r.Accepted :=
  ⟨_, frame_eq_ok_iff.mpr ⟨⟨r.kind.tag, bs, tag_lt r.kind, hlength⟩, rfl, h, rfl⟩⟩

theorem accepted_cpuState {s : Snapshot} (h : s.vectors.length ≤ Snapshot.maxVectors) :
    (cpuState s).Accepted := by
  obtain ⟨bs, hbs, hlength⟩ := Snapshot.exists_payload h
  exact accepted_of_payload hbs (Nat.lt_of_le_of_lt hlength (by decide))

/-- Steps are accepted. -/
theorem accepted_step {s : StepRecord} (hcode : s.code.length ≤ Encoding.maxSize)
    (htext : (s.disassembly.getD "").utf8ByteSize < UInt16.size)
    (hvectors : s.state.vectors.length ≤ Snapshot.maxVectors) : (step s).Accepted := by
  have hsize : Encoding.maxSize = 15 ∧ Snapshot.maxVectors = 32 := ⟨rfl, rfl⟩
  have hbounds : UInt16.size = 65536 ∧ UInt32.size = 4294967296 := ⟨rfl, rfl⟩
  obtain ⟨cs, hcs, hcslength⟩ := Field.exists_array hcode
  obtain ⟨ts, hts, htslength⟩ := Field.exists_string htext
  obtain ⟨ss, hss, hsslength⟩ := Snapshot.exists_payload hvectors
  have hpayload : (step s).payload = .ok (wordBytes [s.index, s.pc] ++ cs ++ ts ++ ss) := by
    rw [payload, hcs, hts, hss]
    rfl
  refine accepted_of_payload hpayload ?_
  simp only [List.length_append, length_wordBytes, List.length_cons, List.length_nil]
  omega

theorem accepted_memoryEvent (e : MemoryEvent) : (memoryEvent e).Accepted := by
  have hlength : e.payload.length = 26 := by simp [MemoryEvent.payload]
  exact accepted_of_payload rfl (by rw [hlength]; decide)

/-- Locations with short names are accepted. -/
theorem accepted_location {l : LocationRecord}
    (hfilename : (l.filename.getD "").utf8ByteSize < UInt16.size)
    (hsymbol : (l.symbol.getD "").utf8ByteSize < UInt16.size) : (location l).Accepted := by
  have hbounds : UInt16.size = 65536 ∧ UInt32.size = 4294967296 := ⟨rfl, rfl⟩
  obtain ⟨fs, hfs, hfslength⟩ := Field.exists_string hfilename
  obtain ⟨ss, hss, hsslength⟩ := Field.exists_string hsymbol
  have hpayload : (location l).payload = .ok (fs ++ ss ++ wordBytes [l.offset, l.pc]) := by
    rw [payload, hfs, hss]
    rfl
  refine accepted_of_payload hpayload ?_
  simp only [List.length_append, length_wordBytes, List.length_cons, List.length_nil]
  omega

/-- Short messages are accepted. -/
theorem accepted_systemLog {l : LogRecord} (h : l.message.utf8ByteSize < UInt16.size) :
    (systemLog l).Accepted := by
  have hbounds : UInt16.size = 65536 ∧ UInt32.size = 4294967296 := ⟨rfl, rfl⟩
  have hmessage : ((some l.message).getD "").utf8ByteSize < UInt16.size := h
  obtain ⟨ms, hms, hlength⟩ := Field.exists_string hmessage
  have hpayload : (systemLog l).payload = .ok (wordBytes [l.pc, l.thread] ++ ms) := by
    rw [payload, hms]
    rfl
  refine accepted_of_payload hpayload ?_
  simp only [List.length_append, length_wordBytes, List.length_cons, List.length_nil]
  omega

theorem accepted_endOfTrace : endOfTrace.Accepted :=
  accepted_of_payload rfl (by decide)

end Record

/-! ### Recording -/

namespace Recorder

/-- Machines with equivalent processors and the same memory. -/
abbrev Same : Machine Memory → Machine Memory → Prop :=
  Machine.Related Cpu.Equivalent (· = ·)

theorem same_refl (m : Machine Memory) : Same m m :=
  ⟨Cpu.equivalent_refl m.cpu, rfl⟩

theorem Same.trans {m n k : Machine Memory} (h : Same m n) (h' : Same n k) : Same m k :=
  ⟨h.1.trans h'.1, h.2.trans h'.2⟩

theorem Same.symm {m n : Machine Memory} (h : Same m n) : Same n m :=
  ⟨h.1.symm, h.2.symm⟩

/-- The computation succeeds with a value that has `Q`, and leaves the machine as good as it was. -/
def Unobtrusive {α : Type} (x : RecordingM α) (Q : α → Prop) : Prop :=
  ∀ s, ∃ v s', outcome x s = (.ok v, s') ∧ Q v ∧ Same s'.machine s.machine

/-- What is done on the machine leaves the recorder. -/
theorem outcome_onMachine {α : Type} (act : StateM (Machine Memory) α) (s : Recording) :
    outcome (onMachine act) s = (.ok (act.run s.machine).1, ⟨(act.run s.machine).2, s.recorder⟩) := rfl

end Recorder

end Amd64
