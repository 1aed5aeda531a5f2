import Amd64.Proofs.Machine.Views
import Amd64.Proofs.Memory.Scan
import Amd64.Proofs.Semantics.Comparison
import Amd64.Proofs.Semantics.Repetition
import Amd64.Proofs.Semantics.Routines

namespace Amd64

/-!
# Routines and instructions that look for a byte

The routines `strlen` and `strchrnul` walk along the addresses, `repne scasb` counts a register down.  Both are
compared with what memory holds.

* `Exec.outcome_scanFor`       — one step of the walk;
* `Exec.outcome_scan_of_finds`, `Exec.outcome_scan_of_breaks` — the whole walk, by induction on the distance;
* `Machine.Scans`              — what a step does that is such a routine;
* `Cpu.SeeksZero`, `Exec.exists_round_scas` — one round of the instruction;
* `Exec.outcome_scas_of_finds`, `Exec.outcome_scas_of_breaks` — its repetition;
* `Exec.outcome_retire_scas_of_finds`, `Exec.outcome_retire_scas_of_breaks` — with a count of all ones;
* `Exec.scans_agree`           — the routines find what there is, and the instruction finds the same.
-/

namespace Exec

/-! ### The walk -/

section
variable {m : Machine Memory} (h : m.bus.table.WellFormed) {stop : UInt8 → Bool}
include h

/-- **One step.** The walk looks at a byte, and goes on unless it is one to stop at. -/
theorem outcome_scanFor (fuel : Nat) (a : UInt64) :
    outcome (scanFor stop (fuel + 1) a : Exec Memory UInt64) m =
      match m.bus.byte? a.toNat with
      | none => (.error (.memory (m.bus.offenseError .read a 1 a.toNat)), m)
      | some b =>
        if b = 0 ∨ stop b = true then (.ok a, m) else outcome (scanFor stop fuel (a + 1)) m := by
  have hread : outcome (access (Bus.readWord .w8 a) : Exec Memory UInt64) m =
      ((m.bus.readWord .w8 a).mapError .memory, m) :=
    outcome_access_ask (fun b => b.readWord .w8 a) m
  rw [scanFor, outcome_bind, hread, Memory.readWord_w8 h]
  cases m.bus.byte? a.toNat with
  | none => rfl
  | some b =>
    have hbyte : b.toUInt64.toUInt8 = b := UInt8.toUInt8_toUInt64 b
    simp only [Except.mapError, hbyte, Bool.or_eq_true, decide_eq_true_eq]
    split <;> rfl

/-- **Many steps.** It passes all bytes that it does not stop at. -/
theorem outcome_scanFor_add {n : Nat} {a : UInt64}
    (hpasses : m.bus.Passes (fun b => b = 0 ∨ stop b = true) a.toNat n) (fuel : Nat) :
    outcome (scanFor stop (n + fuel) a : Exec Memory UInt64) m =
      outcome (scanFor stop fuel (a + UInt64.ofNat n) : Exec Memory UInt64) m := by
  induction n generalizing fuel with
  | zero => rw [Nat.zero_add, show UInt64.ofNat 0 = 0 from rfl, UInt64.add_zero]
  | succ n ih =>
    obtain ⟨b, hb, hgoesOn⟩ := hpasses n (Nat.lt_succ_self n)
    have hbefore : m.bus.Passes (fun b => b = 0 ∨ stop b = true) a.toNat n :=
      fun k hk => hpasses k (Nat.lt_succ_of_lt hk)
    have hplace := Memory.toNat_add_ofNat (hbefore.lt_size a.toNat_lt_size)
    rw [Nat.add_assoc, Nat.add_comm 1 fuel, ih hbefore, outcome_scanFor h, hplace, hb]
    simp only [if_neg hgoesOn]
    rw [UInt64.add_assoc, UInt64.ofNat_add, show UInt64.ofNat 1 = 1 from rfl]

/-- What is left of a walk where it does not go on. -/
theorem outcome_scan_of_passes {n : Nat} {a : UInt64}
    (hpasses : m.bus.Passes (fun b => b = 0 ∨ stop b = true) a.toNat n) :
    ∃ fuel, outcome (scan stop a : Exec Memory UInt64) m =
      outcome (scanFor stop (fuel + 1) (a + UInt64.ofNat n) : Exec Memory UInt64) m := by
  -- there are more addresses than a walk can pass
  obtain ⟨fuel, hfuel⟩ := Nat.exists_eq_add_of_lt (hpasses.lt_size a.toNat_lt_size)
  have hsteps : UInt64.size - a.toNat = n + (fuel + 1) := by omega
  exact ⟨fuel, by rw [scan, hsteps, outcome_scanFor_add h hpasses]⟩

/-- A search that finds a byte ends at its address. -/
theorem outcome_scan_of_finds {n : Nat} {a : UInt64}
    (hscan : m.bus.ScanFinds (fun b => b = 0 ∨ stop b = true) a.toNat n) :
    outcome (scan stop a : Exec Memory UInt64) m = (.ok (a + UInt64.ofNat n), m) := by
  obtain ⟨b, hb, hstop⟩ := hscan.found
  obtain ⟨fuel, hfuel⟩ := outcome_scan_of_passes h hscan.passes
  have hplace := Memory.toNat_add_ofNat (hscan.passes.lt_size a.toNat_lt_size)
  rw [hfuel, outcome_scanFor h, hplace, hb]
  simp only [if_pos hstop]

/-- A search that breaks off ends with the fault of the byte that cannot be read. -/
theorem outcome_scan_of_breaks {n : Nat} {a : UInt64}
    (hscan : m.bus.ScanBreaks (fun b => b = 0 ∨ stop b = true) a.toNat n) :
    outcome (scan stop a : Exec Memory UInt64) m =
      (.error (.memory (m.bus.offenseError .read (a + UInt64.ofNat n) 1 (a.toNat + n))), m) := by
  obtain ⟨fuel, hfuel⟩ := outcome_scan_of_passes h hscan.passes
  have hplace := Memory.toNat_add_ofNat (hscan.passes.lt_size a.toNat_lt_size)
  rw [hfuel, outcome_scanFor h, hplace, hscan.missing]

end

end Exec

/-- A step from `m` looks for a byte that meets `stop` from `rdi` on. Where it is found, `n` bytes away, the step
    returns `result n` to `target`; where a byte before it may not be read, the step fails and changes
    nothing. -/
structure Machine.Scans (m : Machine Memory) (table : IntrinsicTable) (target : UInt64)
    (stop : UInt8 → Prop) (result : Nat → UInt64) : Prop where
  decided : ∃ n, m.bus.ScanFinds stop (m.cpu.gpr .rdi).toNat n ∨
    m.bus.ScanBreaks stop (m.cpu.gpr .rdi).toNat n
  finds : ∀ n, m.bus.ScanFinds stop (m.cpu.gpr .rdi).toNat n →
    outcome (Exec.step table) m = (.ok .proceed, ⟨m.cpu.returned (result n) target, m.bus⟩)
  breaks : ∀ n, m.bus.ScanBreaks stop (m.cpu.gpr .rdi).toNat n →
    outcome (Exec.step table) m = (.error (.memory
      (m.bus.offenseError .read (m.cpu.gpr .rdi + UInt64.ofNat n) 1 ((m.cpu.gpr .rdi).toNat + n))), m)

namespace Exec

section
variable {m : Machine Memory} {table : IntrinsicTable} {target : UInt64}

/-- The length of a string is the number of bytes before the first zero. -/
theorem scans_strlen (h : m.bus.table.WellFormed) (hcalls : m.Calls table .strlen target) :
    m.Scans table target (· = 0) UInt64.ofNat := by
  have hstop : (fun b : UInt8 => b = 0 ∨ (fun _ => false) b = true) = (· = 0) :=
    funext fun b => propext (or_iff_left Bool.false_ne_true)
  refine ⟨m.bus.scan_cases _ _, fun n hscan => ?_, fun n hscan => ?_⟩
  · rw [← hstop] at hscan
    have hsub : m.cpu.gpr .rdi + UInt64.ofNat n - m.cpu.gpr .rdi = UInt64.ofNat n := by
      rw [UInt64.add_comm, UInt64.add_sub_cancel]
    rw [outcome_step_routine hcalls]
    simp only [routine, outcome_bind, outcome_scan_of_finds h hscan, outcome_pure, hsub]
  · rw [← hstop] at hscan
    rw [outcome_step_routine hcalls]
    simp only [routine, outcome_bind, outcome_scan_of_breaks h hscan]

/-- The address of a character is counted from the beginning of the string. -/
theorem scans_strchrnul (h : m.bus.table.WellFormed) (hcalls : m.Calls table .strchrnul target) :
    m.Scans table target (fun b => b = 0 ∨ b = (m.cpu.gpr .rsi).toUInt8)
      fun n => m.cpu.gpr .rdi + UInt64.ofNat n := by
  have hstop : (fun b : UInt8 => b = 0 ∨ (fun b => decide (b = (m.cpu.gpr .rsi).toUInt8)) b = true) =
      fun b => b = 0 ∨ b = (m.cpu.gpr .rsi).toUInt8 :=
    funext fun b => congrArg (b = 0 ∨ ·) (propext decide_eq_true_iff)
  refine ⟨m.bus.scan_cases _ _, fun n hscan => ?_, fun n hscan => ?_⟩
  · rw [← hstop] at hscan
    rw [outcome_step_routine hcalls]
    simp only [routine, outcome_scan_of_finds h hscan]
  · rw [← hstop] at hscan
    rw [outcome_step_routine hcalls]
    simp only [routine, outcome_scan_of_breaks h hscan]

end

end Exec

/-! ### The instruction -/

/-- The registers with which a repeated scan for zero is at `a` and has `c` rounds to go. -/
structure Cpu.SeeksZero (s : Cpu) (a c : Nat) : Prop where
  accumulator : s.readReg (.low .rax .w8) = 0
  upwards : s.flags.direction = false
  pointer : (s.gpr .rdi).toNat = a
  count : (s.gpr .rcx).toNat = c

/-- The registers after the work on the byte `x`. -/
def Cpu.sought (s : Cpu) (x : UInt8) : Cpu :=
  (s.setFlags (subFlags s.flags .w8 0 x.toUInt64 false).2).setGpr .rdi (s.gpr .rdi + 1)

section
variable {b : Memory} {s : Cpu} {a c : Nat} {x : UInt8}

/-- What the registers are after a round. -/
theorem Cpu.SeeksZero.next (hs : s.SeeksZero a (c + 1)) (hx : b.byte? a = some x) :
    ((s.sought x).countedDown false).SeeksZero (a + 1) c ∧
      ((s.sought x).countedDown false).flags.zero = decide (x = 0) := by
  -- comparing touches the flags only, and counting down rCX only
  have hrcx : (s.sought x).gpr .rcx = s.gpr .rcx := Cpu.gpr_setGpr_of_ne _ _ (by decide)
  have hleft : (s.sought x).countedDown false = (s.sought x).setGpr .rcx (s.gpr .rcx - 1) := by
    rw [Cpu.countedDown, Cpu.count, if_neg Bool.false_ne_true, Cpu.readReg_w64, hrcx]
    rfl
  have hrax : ((s.sought x).setGpr .rcx (s.gpr .rcx - 1)).gpr .rax = s.gpr .rax :=
    (Cpu.gpr_setGpr_of_ne _ _ (by decide)).trans (Cpu.gpr_setGpr_of_ne _ _ (by decide))
  have hrdi : ((s.sought x).setGpr .rcx (s.gpr .rcx - 1)).gpr .rdi = s.gpr .rdi + 1 :=
    (Cpu.gpr_setGpr_of_ne _ _ (by decide)).trans (Cpu.gpr_setGpr_self _ _ _)
  rw [hleft]
  refine ⟨⟨?_, hs.upwards, ?_, ?_⟩, ?_⟩
  · rw [Cpu.readReg, hrax]
    exact hs.accumulator
  · -- behind a byte that may be read there is another address
    rw [hrdi, Memory.toNat_add_one (hs.pointer.symm ▸ hx), hs.pointer]
  -- there is still something to count, so the count does not wrap
  · have hone : (1 : UInt64) ≤ s.gpr .rcx := by
      rw [UInt64.le_iff_toNat_le, hs.count]
      exact Nat.succ_pos c
    rw [Cpu.gpr_setGpr_self, UInt64.toNat_sub_of_le _ _ hone, hs.count]
    rfl
  · show (subFlags s.flags .w8 0 x.toUInt64 false).2.zero = _
    have hbyte : Width.w8.toNat x.toUInt64 = x.toNat := by
      rw [Width.toNat, UInt8.toNat_toUInt64]
      exact Nat.mod_eq_of_lt x.toNat_lt
    rw [equal_subFlags, decide_eq_decide, hbyte, ← UInt8.toNat_inj, eq_comm]
    rfl

namespace Exec

variable (h : b.table.WellFormed)
include h

/-- The work on a byte that may be read. -/
theorem outcome_scas (hs : s.SeeksZero a c) (hx : b.byte? a = some x) :
    outcome (string .scas .w8 .none false) (⟨s, b⟩ : Machine Memory) = (.ok (), ⟨s.sought x, b⟩) := by
  have hread : outcome (access (Bus.readWord .w8 (s.readReg (.low .rdi .w64))) : Exec Memory UInt64) ⟨s, b⟩ =
      (.ok x.toUInt64, ⟨s, b⟩) := by
    refine (outcome_access_ask (fun b => b.readWord .w8 _) _).trans ?_
    rw [s.readReg_w64, Memory.readWord_w8 h, hs.pointer, hx]
    rfl
  have hpointer : ∀ f, (s.setFlags f).readReg (.low .rdi .w64) = s.gpr .rdi := fun f =>
    (s.setFlags f).readReg_w64 .rdi
  have hup : ∀ x, (s.setFlags (subFlags s.flags .w8 0 x false).2).flags.direction = false := fun _ => hs.upwards
  show outcome (stringStep .scas .w8 false) _ = _
  simp only [stringStep, compareElements, advance, setFlags, writeReg, pointerWidth, outcome_bind, outcome_cpu,
    hread, outcome_modifyCpu, Bool.false_eq_true, if_false, hs.accumulator, hpointer, hup]
  rfl

/-- The work fails on a byte that may not be read. -/
theorem outcome_scas_of_none (hs : s.SeeksZero a c) (hnone : b.byte? a = none) :
    ∃ f, outcome (string .scas .w8 .none false) (⟨s, b⟩ : Machine Memory) = (.error f, ⟨s, b⟩) := by
  have hread : outcome (access (Bus.readWord .w8 (s.readReg (.low .rdi .w64))) : Exec Memory UInt64) ⟨s, b⟩ =
      (.error (.memory (b.offenseError .read (s.gpr .rdi) 1 a)), ⟨s, b⟩) := by
    refine (outcome_access_ask (fun b => b.readWord .w8 _) _).trans ?_
    rw [s.readReg_w64, Memory.readWord_w8 h, hs.pointer, hnone]
    rfl
  refine ⟨.memory (b.offenseError .read (s.gpr .rdi) 1 a), ?_⟩
  show outcome (stringStep .scas .w8 false) _ = _
  simp only [stringStep, pointerWidth, outcome_bind, outcome_cpu, Bool.false_eq_true, if_false, hread]

omit h in
/-- As long as a byte is sought the count is not zero. -/
theorem count_ne_zero (hs : s.SeeksZero a (c + 1)) : (⟨s, b⟩ : Machine Memory).cpu.count false ≠ 0 := by
  intro hzero
  have hcount : s.gpr .rcx = 0 := (s.readReg_w64 .rcx).symm.trans hzero
  have hpositive := hs.count
  rw [hcount] at hpositive
  exact Nat.succ_ne_zero c hpositive.symm

/-- **One round.** It moves on by a byte, takes one off the count, and tells whether the byte was zero. -/
theorem exists_round_scas (hs : s.SeeksZero a (c + 1)) (hx : b.byte? a = some x) :
    ∃ u t : Cpu, Round .scas .w8 false (⟨s, b⟩ : Machine Memory) ⟨u, b⟩ ⟨t, b⟩ ∧ t.SeeksZero (a + 1) c ∧
      t.flags.zero = decide (x = 0) :=
  ⟨s.sought x, (s.sought x).countedDown false, ⟨count_ne_zero hs, outcome_scas h hs hx, rfl⟩, hs.next hx⟩

/-- **Many rounds.** The repetition passes all bytes that are not zero, as far as the count goes. -/
theorem exists_rounds_scas {n : Nat} (hs : s.SeeksZero a (n + c)) (hpasses : b.Passes (· = 0) a n) :
    ∃ t : Cpu, Rounds .scas .w8 .repne false n (⟨s, b⟩ : Machine Memory) ⟨t, b⟩ ∧ t.SeeksZero (a + n) c := by
  induction n generalizing s a with
  | zero => exact ⟨s, .zero _, by rwa [Nat.zero_add] at hs⟩
  | succ n ih =>
    obtain ⟨x, hx, hgoesOn⟩ := hpasses.first
    rw [Nat.add_right_comm] at hs
    obtain ⟨u, t, hround, ht, hzero⟩ := exists_round_scas h hs hx
    obtain ⟨v, hrest, hv⟩ := ih ht hpasses.tail
    refine ⟨v, .succ hround ?_ hrest, by rwa [Nat.add_right_comm, Nat.add_assoc] at hv⟩
    rintro (⟨hrepe, -⟩ | ⟨-, hstops⟩)
    · cases hrepe
    · exact hgoesOn (of_decide_eq_true (hzero.symm.trans hstops))

/-- The repetition ends at the first zero, and the count says how far that is. -/
theorem outcome_scas_of_finds {n : Nat} (hs : s.SeeksZero a (n + (c + 1))) (hscan : b.ScanFinds (· = 0) a n) :
    ∃ t : Cpu, outcome (string .scas .w8 .repne false) (⟨s, b⟩ : Machine Memory) = (.ok (), ⟨t, b⟩) ∧
      (t.gpr .rcx).toNat = c := by
  obtain ⟨t, hrounds, ht⟩ := exists_rounds_scas h hs hscan.passes
  obtain ⟨x, hx, hstop⟩ := hscan.found
  obtain ⟨u, v, hround, hv, hzero⟩ := exists_round_scas h ht hx
  have hrepne : Repeat.repne ≠ .none := nofun
  refine ⟨v, ?_, hv.count⟩
  rw [outcome_string_rounds hrepne hrounds]
  exact outcome_string_of_ends hrepne (.stopped hround (Or.inr ⟨rfl, hzero.trans (decide_eq_true hstop)⟩))

/-- The repetition fails at a byte that may not be read. -/
theorem outcome_scas_of_breaks {n : Nat} (hs : s.SeeksZero a (n + (c + 1))) (hscan : b.ScanBreaks (· = 0) a n) :
    ∃ f, (outcome (string .scas .w8 .repne false) (⟨s, b⟩ : Machine Memory)).1 = .error f := by
  obtain ⟨t, hrounds, ht⟩ := exists_rounds_scas h hs hscan.passes
  obtain ⟨f, hf⟩ := outcome_scas_of_none h ht hscan.missing
  have hrepne : Repeat.repne ≠ .none := nofun
  rw [outcome_string_rounds hrepne hrounds, outcome_string_of_ends hrepne (.fault (count_ne_zero ht) hf)]
  exact ⟨f, rfl⟩

end Exec

end

/-! ### Routines and instructions -/

/-- Executing the instruction `i` with the registers `s` finds the length that the routine finds in a step from
    `m`. -/
structure Machine.SameLength (m : Machine Memory) (table : IntrinsicTable) (i : Instruction) (s : Cpu) : Prop where
  fails : (∃ f, (outcome (Exec.retire i i.binding) ⟨s, m.bus⟩).1 = .error f) →
    ∃ f, (outcome (Exec.step table) m).1 = .error f
  /-- Only bytes at all addresses from zero up to the greatest one, which no host stores, would use the count up
      before the scan meets what may not be read. -/
  fails_iff : ¬ m.bus.Passes (· = 0) (m.cpu.gpr .rdi).toNat (UInt64.size - 1) →
    ((∃ f, (outcome (Exec.retire i i.binding) ⟨s, m.bus⟩).1 = .error f) ↔
      ∃ f, (outcome (Exec.step table) m).1 = .error f)
  length : ∀ m', outcome (Exec.step table) m = (.ok .proceed, m') →
    ∃ t, outcome (Exec.retire i i.binding) ⟨s, m.bus⟩ = (.ok .proceed, ⟨t, m.bus⟩) ∧
      ~~~t.gpr .rcx - 1 = m'.cpu.gpr .rax

namespace Exec

variable {m : Machine Memory} {table : IntrinsicTable} {target : UInt64}

/-- From all ones, the count says how many bytes were passed. -/
theorem not_sub_one {r : UInt64} {n c : Nat} (hr : r.toNat = c) (hn : n + (c + 1) = UInt64.size - 1) :
    ~~~r - 1 = UInt64.ofNat n := by
  have hnot : (~~~r).toNat = n + 1 := by
    rw [UInt64.toNat_not, hr]
    omega
  have hone : (1 : UInt64) ≤ ~~~r := by
    rw [UInt64.le_iff_toNat_le, hnot]
    exact Nat.le_add_left 1 n
  rw [← UInt64.toNat_inj, UInt64.toNat_sub_of_le _ _ hone, hnot, UInt64.toNat_ofNat']
  exact (Nat.mod_eq_of_lt (show n < UInt64.size by omega)).symm

section
variable {b : Memory} (h : b.table.WellFormed) {i : Instruction} (hi : i.operation = .string .scas .w8 .repne false)
  {s : Cpu} {a n : Nat} (hs : s.SeeksZero a (UInt64.size - 1))

/-- The instruction is its repetition. -/
theorem execute_scas (hi : i.operation = .string .scas .w8 .repne false) :
    (i.execute i.binding : Exec Memory Outcome) = do
      string .scas .w8 .repne false
      return .next i.next := by
  simp only [Instruction.execute, hi]

include h hi hs

/-- With a count of all ones the instruction finds the length. -/
theorem outcome_retire_scas_of_finds (hscan : b.ScanFinds (· = 0) a n) :
    ∃ t, outcome (retire i i.binding) ⟨s, b⟩ = (.ok .proceed, ⟨t, b⟩) ∧ ~~~t.gpr .rcx - 1 = UInt64.ofNat n := by
  have hlast := hscan.lt_last
  obtain ⟨c, hc⟩ := Nat.exists_eq_add_of_lt (show n < UInt64.size - 1 by omega)
  rw [Nat.add_assoc] at hc
  obtain ⟨t, ht, hcount⟩ := outcome_scas_of_finds h (hc ▸ hs) hscan
  refine ⟨t.setRip i.next, ?_, not_sub_one hcount hc.symm⟩
  rw [outcome_retire_next (execute_scas hi), ht]

/-- It fails at a byte that may not be read, unless the count is used up before. -/
theorem outcome_retire_scas_of_breaks (hshort : ¬ b.Passes (· = 0) a (UInt64.size - 1))
    (hscan : b.ScanBreaks (· = 0) a n) : ∃ f, (outcome (retire i i.binding) ⟨s, b⟩).1 = .error f := by
  have hroom : n < UInt64.size - 1 := by
    by_contra hlong
    exact hshort fun k hk => hscan.passes k (Nat.lt_of_lt_of_le hk (Nat.not_lt.mp hlong))
  obtain ⟨c, hc⟩ := Nat.exists_eq_add_of_lt hroom
  rw [Nat.add_assoc] at hc
  obtain ⟨f, hf⟩ := outcome_scas_of_breaks h (hc ▸ hs) hscan
  refine ⟨f, ?_⟩
  rw [outcome_retire_next (execute_scas hi)]
  generalize outcome (string .scas .w8 .repne false) (⟨s, b⟩ : Machine Memory) = r at hf ⊢
  obtain ⟨e | u, m'⟩ := r
  · obtain rfl := Except.error.inj hf
    rfl
  · cases hf

end

/-- The instruction and the routine do the same, since what there is in memory decides both. -/
theorem sameLength (h : m.bus.table.WellFormed) (hscans : m.Scans table target (· = 0) UInt64.ofNat)
    {i : Instruction} (hi : i.operation = .string .scas .w8 .repne false) {s : Cpu}
    (hs : s.SeeksZero (m.cpu.gpr .rdi).toNat (UInt64.size - 1)) : m.SameLength table i s := by
  -- each scan either finds its byte or breaks off, and the two cannot disagree about it
  have hfails : (∃ f, (outcome (retire i i.binding) ⟨s, m.bus⟩).1 = .error f) →
      ∃ f, (outcome (step table) m).1 = .error f := by
    rintro ⟨f, hf⟩
    obtain ⟨n, hscan | hscan⟩ := hscans.decided
    · obtain ⟨t, ht, -⟩ := outcome_retire_scas_of_finds h hi hs hscan
      rw [ht] at hf
      cases hf
    · exact ⟨_, congrArg Prod.fst (hscans.breaks n hscan)⟩
  refine ⟨hfails, fun hshort => ⟨hfails, ?_⟩, fun m' hm' => ?_⟩
  · rintro ⟨f, hf⟩
    obtain ⟨n, hscan | hscan⟩ := hscans.decided
    · rw [hscans.finds n hscan] at hf
      cases hf
    · exact outcome_retire_scas_of_breaks h hi hs hshort hscan
  · obtain ⟨n, hscan | hscan⟩ := hscans.decided
    · rw [hscans.finds n hscan] at hm'
      obtain rfl := (Prod.mk.inj hm').2
      obtain ⟨t, ht, hlength⟩ := outcome_retire_scas_of_finds h hi hs hscan
      exact ⟨t, ht, hlength.trans (m.cpu.gpr_rax_returned _ _).symm⟩
    · rw [hscans.breaks n hscan] at hm'
      cases hm'

/-- **Scans.** The routine `strlen` returns the distance of the first zero and `strchrnul` the address of the
    first byte that is zero or the one in `rsi`, if all bytes up to it may be read; else they fail and change
    nothing.  Started with a count of all ones, `repne scasb` fails where `strlen` does, unless the count is used
    up before, which takes more bytes than a host can store; and else its count says what `strlen` returns. -/
theorem scans_agree (hm : m.bus.Reachable) :
    (m.Calls table .strlen target →
      m.Scans table target (· = 0) UInt64.ofNat ∧
        ∀ (i : Instruction) (s : Cpu), i.operation = .string .scas .w8 .repne false →
          s.SeeksZero (m.cpu.gpr .rdi).toNat (UInt64.size - 1) → m.SameLength table i s) ∧
    (m.bus.Storable → ¬ m.bus.Passes (· = 0) (m.cpu.gpr .rdi).toNat (UInt64.size - 1)) ∧
    (m.Calls table .strchrnul target →
      m.Scans table target (fun b => b = 0 ∨ b = (m.cpu.gpr .rsi).toUInt8)
        fun n => m.cpu.gpr .rdi + UInt64.ofNat n) :=
  ⟨fun hcalls => ⟨scans_strlen hm.wellFormed hcalls, fun _ _ hi hs =>
      sameLength hm.wellFormed (scans_strlen hm.wellFormed hcalls) hi hs⟩,
    fun hstored => hstored.not_passes hm.wellFormed _ _,
    scans_strchrnul hm.wellFormed⟩

/-- Two letters and a zero in the last bytes that can be mapped: `strlen` and `repne scasb` find the zero. -/
theorem scans_agree_top :
    let bus : Memory := (Memory.empty ⟨0x10000, 0x20000⟩).afterCalls
      [.map ⟨0x3000, 0x3008, .readWrite, 0, "stack"⟩ (packed [0x34, 0x12, 0, 0, 0, 0, 0, 0]),
        .map ⟨0xfffffffffffffffc, 0xffffffffffffffff, .readWrite, 0, "text"⟩ (packed [0x61, 0x62, 0])]
    let table := IntrinsicTable.empty.register 0x1000 .strlen
    let s := (Cpu.initial.setGpr .rdi 0xfffffffffffffffc).setGpr .rcx 0xffffffffffffffff
    let m : Machine Memory := ⟨(s.setGpr .rsp 0x3000).setRip 0x1000, bus⟩
    let scas : Instruction := ⟨0x2000, .ofBytes [0xf2, 0xae], .string .scas .w8 .repne false⟩
    m.Calls table .strlen 0x1234 ∧ m.bus.Storable ∧ decode 0x2000 [0xf2, 0xae] = .ok scas ∧
      outcome (step table) m = (.ok .proceed, ⟨m.cpu.returned 2 0x1234, bus⟩) ∧
      ∃ t, outcome (retire scas scas.binding) ⟨s, bus⟩ = (.ok .proceed, ⟨t, bus⟩) ∧ ~~~t.gpr .rcx - 1 = 2 := by
  intro bus table s m scas
  have hcalls : m.Calls table .strlen 0x1234 := ⟨by decide +kernel, by decide +kernel⟩
  have hfinds : m.bus.ScanFinds (· = 0) (m.cpu.gpr .rdi).toNat 2 := by
    refine ⟨fun k hk => ?_, 0, by decide +kernel, rfl⟩
    obtain rfl | rfl : k = 0 ∨ k = 1 := by omega
    · exact ⟨0x61, by decide +kernel, by decide⟩
    · exact ⟨0x62, by decide +kernel, by decide⟩
  have hs : s.SeeksZero (m.cpu.gpr .rdi).toNat (UInt64.size - 1) :=
    ⟨by decide +kernel, by decide +kernel, by decide +kernel, by decide +kernel⟩
  have hreachable : m.bus.Reachable := ⟨_, _, rfl⟩
  obtain ⟨hscans, hsame⟩ := (scans_agree hreachable).1 hcalls
  have hstep := hscans.finds 2 hfinds
  obtain ⟨t, ht, hlength⟩ := (hsame scas s rfl hs).length _ hstep
  have hstored : m.bus.stored = 11 := by decide +kernel
  have hstorable : m.bus.Storable := by
    rw [Memory.Storable, hstored]
    decide
  exact ⟨hcalls, hstorable, by decide +kernel, hstep, t, ht, hlength.trans (m.cpu.gpr_rax_returned _ _)⟩

end Exec

end Amd64
