import Amd64.Proofs.Decoder.Basic
import Amd64.Proofs.Machine.Run
import Amd64.Proofs.Memory.Fetch
import Amd64.Proofs.Semantics.Outcome

namespace Amd64

/-!
# Fetching instructions from an address space

* `Memory.instructionAt` — the instruction or routine at an address, or the fault of fetching it;
* `Exec.outcome_fetchInstruction`, `Exec.outcome_step` — a step fetches this one and changes nothing when
  there is none;
* `Memory.permits_instructionAt` — all bytes of an instruction may be executed;
* `Memory.instructionAt_congr`   — and they decide which instruction it is.
-/

/-- The instruction or routine at an address, or why there is none. -/
def Memory.instructionAt (table : IntrinsicTable) (rip : UInt64) (m : Memory) :
    Except Fault Instruction :=
  match table.get? rip with
  | some id => .ok (.ofIntrinsic rip id)
  | none =>
    match m.fetch rip Encoding.maxSize with
    | .error e => .error (.memory e)
    | .ok bytes => (decode rip (byteList bytes)).mapError .decode

namespace Exec

variable (table : IntrinsicTable)

/-- Fetching changes nothing. -/
theorem outcome_fetchInstruction (rip : UInt64) (m : Machine Memory) :
    outcome (fetchInstruction table rip) m = (m.bus.instructionAt table rip, m) := by
  obtain ⟨s, b⟩ := m
  unfold fetchInstruction Memory.instructionAt
  cases table.get? rip with
  | some id => rfl
  | none =>
    have hfetch : outcome (Bus.fetch rip Encoding.maxSize : BusM Memory ByteArray) b =
        (b.fetch rip Encoding.maxSize, b) := rfl
    simp only [outcome_bind, outcome_access, hfetch]
    cases b.fetch rip Encoding.maxSize with
    | error e => rfl
    | ok bytes =>
      simp only
      cases decode rip (byteList bytes) <;> rfl

/-- A step retires the instruction at the instruction pointer. -/
theorem outcome_step (m : Machine Memory) :
    outcome (step table) m =
      match m.bus.instructionAt table m.cpu.rip with
      | .ok i => outcome (retire i i.binding) m
      | .error f => (.error f, m) := by
  have hstep : outcome (step table) m =
      outcome (fetchInstruction table m.cpu.rip >>= fun i => retire i i.binding) m := rfl
  rw [hstep, outcome_bind, outcome_fetchInstruction]
  cases m.bus.instructionAt table m.cpu.rip <;> rfl

end Exec

/-- An instruction is no longer than what it was decoded from. -/
theorem size_le_of_decode {rip : UInt64} {bs : ByteArray} {i : Instruction}
    (h : decode rip (byteList bs) = .ok i) : i.size ≤ bs.size := by
  obtain ⟨-, -, hbytes, -⟩ := decode_ok_spec rip h
  have hlen := congrArg List.length hbytes
  rw [List.length_take, length_byteList] at hlen
  have hsize : i.encoding.bytes.length = i.size := rfl
  omega

namespace Memory

variable {table : IntrinsicTable} {rip : UInt64} {m : Memory} {i : Instruction}

/-- What is not a routine was decoded from code. -/
theorem exists_fetch_of_instructionAt (h : m.instructionAt table rip = .ok i)
    (hroutine : table.get? rip = none) :
    ∃ bs, m.fetch rip Encoding.maxSize = .ok bs ∧ decode rip (byteList bs) = .ok i := by
  rw [instructionAt, hroutine] at h
  cases hfetch : m.fetch rip Encoding.maxSize with
  | error e =>
    rw [hfetch] at h
    exact nomatch h
  | ok bs =>
    rw [hfetch] at h
    have hfound : (decode rip (byteList bs)).mapError Fault.decode = .ok i := h
    cases hdecode : decode rip (byteList bs) with
    | error e =>
      rw [hdecode] at hfound
      exact nomatch hfound
    | ok j =>
      rw [hdecode] at hfound
      exact ⟨bs, rfl, hdecode.trans (congrArg _ (Except.ok.inj hfound))⟩

/-- An instruction knows where it was fetched. -/
theorem rip_of_instructionAt (h : m.instructionAt table rip = .ok i) : i.rip = rip := by
  cases hroutine : table.get? rip with
  | some id =>
    rw [instructionAt, hroutine] at h
    rw [← Except.ok.inj h]
    rfl
  | none =>
    obtain ⟨bs, -, hdecode⟩ := exists_fetch_of_instructionAt h hroutine
    exact rip_of_decode hdecode

/-- **Instructions are code.** All bytes of an instruction may be executed. -/
theorem permits_instructionAt (hm : m.table.WellFormed) (h : m.instructionAt table rip = .ok i)
    {x : Nat} (hlow : rip.toNat ≤ x) (hx : x < rip.toNat + i.size) : m.Permits (·.execute) x := by
  cases hroutine : table.get? rip with
  | some id =>
    -- a routine has no bytes
    rw [instructionAt, hroutine] at h
    have hsize : i.size = 0 := by
      rw [← Except.ok.inj h]
      rfl
    omega
  | none =>
    obtain ⟨bs, hfetch, hdecode⟩ := exists_fetch_of_instructionAt h hroutine
    exact permits_fetch hm hfetch hlow (by have := size_le_of_decode hdecode; omega)

/-- **Instructions are their bytes.** Where permissions and the bytes of an instruction are the same, the
    same instruction is fetched. -/
theorem instructionAt_congr {m' : Memory} (hm : m.table.WellFormed) (hm' : m'.table.WellFormed)
    (hperm : m'.permissions? = m.permissions?) (h : m.instructionAt table rip = .ok i)
    (hbytes : ∀ x, rip.toNat ≤ x → x < rip.toNat + i.size → m'.view? x = m.view? x) :
    m'.instructionAt table rip = .ok i := by
  cases hroutine : table.get? rip with
  | some id =>
    rw [instructionAt, hroutine] at h ⊢
    exact h
  | none =>
    obtain ⟨bs, hfetch, hdecode⟩ := exists_fetch_of_instructionAt h hroutine
    have hle := size_le_of_decode hdecode
    obtain ⟨hpos, -, -, hprefix, -⟩ := decode_ok_spec rip hdecode
    obtain ⟨bs', hfetch', htake⟩ := exists_fetch_of_permissions hm hm' hperm hfetch (by omega)
    -- the bytes behind the instruction do not matter
    have hdecode' : decode rip (byteList bs') = .ok i := by
      rw [← List.take_append_drop i.size (byteList bs'), htake i.size hbytes]
      exact hprefix _
    rw [instructionAt, hroutine, hfetch']
    show (decode rip (byteList bs')).mapError Fault.decode = .ok i
    rw [hdecode']
    rfl

end Memory

end Amd64
