import Amd64.Proofs.Machine.Fetch
import Amd64.Proofs.Semantics.Precise
import Amd64.Proofs.Simulation.Run

namespace Amd64

/-!
# Steps that end with a fault

* `Memory.wellFormed_or_routine` — what is fetched has operands that fit, or is a routine;
* `step_fault_cases`             — either nothing was fetched, or the instruction itself failed;
* `step_fault`                   — what a step that ends with a fault leaves.
-/

section
variable {table : IntrinsicTable}

/-- What is fetched was decoded or stands for a routine. -/
theorem Memory.wellFormed_or_routine {m : Memory} {rip : UInt64} {i : Instruction}
    (h : m.instructionAt table rip = .ok i) :
    i.operation.WellFormed ∨ ∃ id, table.get? rip = some id ∧ i = .ofIntrinsic rip id := by
  cases hroutine : table.get? rip with
  | none =>
    obtain ⟨bs, -, hdecode⟩ := exists_fetch_of_instructionAt h hroutine
    exact Or.inl (wellFormed_of_decode rip hdecode)
  | some id =>
    rw [instructionAt, hroutine] at h
    exact Or.inr ⟨id, rfl, (Except.ok.inj h).symm⟩

variable {m : Machine Memory} {f : Fault}

/-- The step leaves what the fetch or the instruction that failed leaves. -/
theorem step_fault_cases (h : (outcome (Exec.step table) m).1 = .error f) :
    (m.bus.instructionAt table m.cpu.rip = .error f ∧ (outcome (Exec.step table) m).2 = m) ∨
      ∃ i, m.bus.instructionAt table m.cpu.rip = .ok i ∧
        (outcome (i.execute i.binding : Exec Memory Outcome) m).1 = .error f ∧
        (outcome (Exec.step table) m).2 =
          (outcome (i.execute i.binding : Exec Memory Outcome) m).2 := by
  rw [Exec.outcome_step] at h ⊢
  cases hfetch : m.bus.instructionAt table m.cpu.rip with
  | error e =>
    rw [hfetch] at h
    exact Or.inl ⟨congrArg Except.error (Except.error.inj h), rfl⟩
  | ok i =>
    rw [hfetch] at h
    refine Or.inr ⟨i, rfl, ?_⟩
    simp only [Exec.outcome_retire] at h ⊢
    generalize outcome (i.execute i.binding : Exec Memory Outcome) m = p at h ⊢
    obtain ⟨r, m'⟩ := p
    cases r with
    | ok out => exact nomatch h
    | error e => exact ⟨congrArg Except.error (Except.error.inj h), rfl⟩

/-- **Faults are precise.** A step that ends with a fault leaves the instruction pointer.  Unless what was
    fetched is the repetition of a string instruction, a routine that copies or fills memory, or a store
    of 256 bits, it also leaves the contents of all registers and all of memory.  A routine leaves the
    contents of the registers in any case. -/
theorem step_fault (h : (outcome (Exec.step table) m).1 = .error f) :
    (outcome (Exec.step table) m).2.cpu.rip = m.cpu.rip ∧
      ((∀ i, (outcome (Exec.fetchInstruction table m.cpu.rip) m).1 = .ok i →
          ¬ i.operation.IsInterruptible) →
        (outcome (Exec.step table) m).2.cpu.snapshot = m.cpu.snapshot ∧
          (outcome (Exec.step table) m).2.bus = m.bus) ∧
      ∀ id, table.get? m.cpu.rip = some id →
        (outcome (Exec.step table) m).2.cpu.snapshot = m.cpu.snapshot := by
  simp only [Exec.outcome_fetchInstruction]
  -- either nothing was fetched, or the fault is one of an instruction that was
  rcases step_fault_cases h with ⟨-, hsame⟩ | ⟨i, hfetch, hfault, hleft⟩
  · rw [hsame]
    exact ⟨rfl, fun _ => ⟨rfl, rfl⟩, fun _ _ => rfl⟩
  · rw [hleft]
    have hfound := Memory.wellFormed_or_routine hfetch
    refine ⟨(i.fixed_execute i.binding m).1, fun hwhole => ?_, fun id hid => ?_⟩
    · have hcontents := i.precise_execute (hfound.imp_right fun ⟨id, _, hi⟩ => ⟨id, hi ▸ rfl⟩)
        (hwhole i hfetch) m f hfault
      exact ⟨congrArg Prod.fst hcontents, congrArg Prod.snd hcontents⟩
    · -- where a routine is installed nothing else is fetched
      have hi : i = .ofIntrinsic m.cpu.rip id := by
        rw [Memory.instructionAt, hid] at hfetch
        exact (Except.ok.inj hfetch).symm
      subst hi
      exact congrArg Cpu.snapshot (Instruction.precise_cpu_execute m.cpu.rip id m f hfault)

/-- A machine whose stack can be read and whose next instruction pops into unmapped memory. -/
def poppingOutside : Machine Memory where
  cpu := ((Cpu.initial.setRip 0x1000).setGpr .rsp 0x2000).setGpr .rax 0x9000
  bus := (Memory.empty {}).afterCalls
    [.map ⟨0x1000, 0x1002, .readExecute, 0, "code"⟩ (packed [0x8f, 0x00]),
      .map ⟨0x2000, 0x2008, .readWrite, 0, "stack"⟩ (packed [1])]

/-- The value was read, and the stack pointer is back where it was. -/
theorem step_fault_poppingOutside :
    (outcome (Exec.step ⟨[]⟩) poppingOutside).1 = .error (.memory (.unmapped 0x9000 8)) ∧
      (outcome (Exec.step ⟨[]⟩) poppingOutside).2.cpu.rip = 0x1000 ∧
      (outcome (Exec.step ⟨[]⟩) poppingOutside).2.cpu.snapshot = poppingOutside.cpu.snapshot ∧
      (outcome (Exec.step ⟨[]⟩) poppingOutside).2.bus = poppingOutside.bus := by
  have hfault : (outcome (Exec.step ⟨[]⟩) poppingOutside).1 =
      .error (.memory (.unmapped 0x9000 8)) := by decide +kernel
  have hfetch : (outcome (Exec.fetchInstruction ⟨[]⟩ 0x1000) poppingOutside).1.map
      Instruction.operation = .ok (.pop (.mem ⟨.register .rax, none, .one, 0, none, false⟩) .w64) := by
    decide +kernel
  obtain ⟨hrip, hwhole, -⟩ := step_fault hfault
  have hpop : ∀ i, (outcome (Exec.fetchInstruction ⟨[]⟩ poppingOutside.cpu.rip) poppingOutside).1 =
      .ok i → ¬ i.operation.IsInterruptible := by
    intro i hi
    have hmapped : (outcome (Exec.fetchInstruction ⟨[]⟩ 0x1000) poppingOutside).1 = .ok i := hi
    rw [hmapped] at hfetch
    rw [Except.ok.inj hfetch]
    exact id
  exact ⟨hfault, hrip, hwhole hpop⟩

end

end Amd64
