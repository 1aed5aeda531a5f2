import Amd64.Decoder.Basic
import Amd64.Proofs.Memory.Access
import Amd64.Proofs.Semantics.Footprint.Strings
import Amd64.Proofs.Semantics.Precise.Integer

namespace Amd64

/-!
# Repeated string instructions

A repeated string instruction is the iteration of the instruction without repetition.

* `Cpu.countedDown`               — the registers after one round;
* `Repeat.StopsAfter`             — flags after which a repetition ends early;
* `Exec.Rounds`, `Exec.Ends`      — rounds after which the repetition goes on, and the ways in which it ends;
* `Exec.outcome_string_round`     — after a round, what is left is a repetition again;
* `Exec.outcome_string_eq_iff`    — a repetition consists of rounds and an end, by induction on the count;
* `Exec.InterruptedAfter`         — a fault between two rounds, after which the instruction may go on;
* `Exec.string_iterates`          — all of this for an address space.
-/

/-! ### The count register -/

namespace Cpu

variable {s : Cpu} {narrow : Bool}

/-- The registers with one less in the count register. -/
def countedDown (s : Cpu) (narrow : Bool) : Cpu :=
  s.writeReg (.low .rcx (if narrow then .w32 else .w64)) (s.count narrow - 1)

/-- The count is in one register. -/
theorem count_congr {t : Cpu} (h : t.gpr .rcx = s.gpr .rcx) : t.count narrow = s.count narrow := by
  rw [count_eq, count_eq, readReg, readReg, h]

/-- A count that is not zero drops by one, also in the lower half of the register. -/
theorem toNat_count_countedDown (h : s.count narrow ≠ 0) :
    ((s.countedDown narrow).count narrow).toNat + 1 = (s.count narrow).toNat := by
  have hpositive : (s.count narrow).toNat ≠ 0 := fun hzero => h (UInt64.toNat_inj.mp hzero)
  -- the register was read at its width, so that taking one off does not leave the width
  have hbound : (s.count narrow).toNat < (pointerWidth narrow).modulus := by
    rw [count_eq, readReg, Width.toNat_truncate]
    exact (pointerWidth narrow).toNat_lt _
  have hone : (1 : UInt64) ≤ s.count narrow := by
    rw [UInt64.le_iff_toNat_le]
    exact Nat.one_le_iff_ne_zero.mpr hpositive
  have hless : (s.count narrow - 1).toNat = (s.count narrow).toNat - 1 :=
    UInt64.toNat_sub_of_le _ _ hone
  have hlow : (pointerWidth narrow).toNat (s.count narrow - 1) = (s.count narrow).toNat - 1 := by
    rw [Width.toNat, hless]
    exact Nat.mod_eq_of_lt (by omega)
  have hcount : (s.countedDown narrow).count narrow =
      (pointerWidth narrow).truncate ((pointerWidth narrow).truncate (s.count narrow - 1)) := by
    rw [count_eq, readReg]
    exact congrArg _ (gpr_writeReg_pointer s .rcx _)
  rw [hcount, Width.truncate_truncate, Width.toNat_truncate, hlow]
  omega

end Cpu

/-- The flags end the repetition before the count does. -/
def Repeat.StopsAfter (times : Repeat) (f : Flags) : Prop :=
  (times = .repe ∧ f.zero = false) ∨ (times = .repne ∧ f.zero = true)

namespace Exec

/-- The end of a repetition, as the flags tell it. -/
theorem endsEarly_iff (times : Repeat) (f : Flags) : endsEarly times f = true ↔ times.StopsAfter f := by
  cases times <;> simp [endsEarly, Repeat.StopsAfter]

/-! ### The work on one element and the count -/

section
variable {σ : Type} {g : Gpr}

/-- A change to the registers that leaves one of them. -/
theorem keeps_gpr_modifyCpu {f : Cpu → Cpu} (h : ∀ s, (f s).gpr g = s.gpr g) :
    Keeps (fun m => m.cpu.gpr g) (modifyCpu f : Exec σ Unit) :=
  fun m => h m.cpu

theorem keeps_gpr_access {α : Type} (act : BusM σ α) :
    Keeps (fun m => m.cpu.gpr g) (access act : Exec σ α) :=
  fun m => congrArg (·.gpr g) (keeps_access act m)

/-- Another pointer is moved. -/
theorem keeps_gpr_advance {r : Reg} (h : r.gpr ≠ g) (w : Width) :
    Keeps (fun m => m.cpu.gpr g) (advance r w : Exec σ Unit) :=
  keeps_cpu.bind fun _ => keeps_gpr_modifyCpu fun t => Cpu.gpr_writeReg_of_ne t h _

/-- A comparison of elements leaves the registers. -/
theorem keeps_gpr_compareElements (w : Width) (a b : UInt64) :
    Keeps (fun m => m.cpu.gpr g) (compareElements w a b : Exec σ Unit) :=
  keeps_cpu.bind fun _ => keeps_gpr_modifyCpu fun _ => rfl

/-- The work on one element does not use the count register. -/
theorem keeps_rcx_stringStep [Bus σ] (op : StringOp) (w : Width) (narrow : Bool) :
    Keeps (fun m => m.cpu.gpr .rcx) (stringStep op w narrow : Exec σ Unit) := by
  have hsource : Keeps (fun m => m.cpu.gpr .rcx)
      (advance (.low .rsi (pointerWidth narrow)) w : Exec σ Unit) :=
    keeps_gpr_advance (by simp [Reg.gpr]) w
  have htarget : Keeps (fun m => m.cpu.gpr .rcx)
      (advance (.low .rdi (pointerWidth narrow)) w : Exec σ Unit) :=
    keeps_gpr_advance (by simp [Reg.gpr]) w
  refine keeps_cpu.bind fun s => ?_
  cases op with
  | movs =>
    exact (keeps_gpr_access _).bind fun _ => (keeps_gpr_access _).bind fun _ =>
      hsource.bind fun _ => htarget
  | stos => exact (keeps_gpr_access _).bind fun _ => htarget
  | lods =>
    exact (keeps_gpr_access _).bind fun _ =>
      (keeps_gpr_modifyCpu fun t => Cpu.gpr_writeReg_of_ne t (by simp [Reg.gpr]) _).bind fun _ => hsource
  | cmps =>
    exact (keeps_gpr_access _).bind fun _ => (keeps_gpr_access _).bind fun _ =>
      (keeps_gpr_compareElements w _ _).bind fun _ => hsource.bind fun _ => htarget
  | scas =>
    exact (keeps_gpr_access _).bind fun _ => (keeps_gpr_compareElements w _ _).bind fun _ => htarget

end

/-! ### Rounds -/

section
variable {σ : Type} [Bus σ] (op : StringOp) (w : Width) (times : Repeat) (narrow : Bool)

/-- A round goes from `m` to `m'`: the count is not zero, the work on one element leaves `s`, and the count is
    one less in `m'`. -/
structure Round (m s m' : Machine σ) : Prop where
  count : m.cpu.count narrow ≠ 0
  work : outcome (string op w .none narrow) m = (.ok (), s)
  counted : m' = ⟨s.cpu.countedDown narrow, s.bus⟩

/-- From `m`, rounds lead to `m'`, and the repetition goes on after each of them. -/
inductive Rounds : Nat → Machine σ → Machine σ → Prop where
  | zero (m : Machine σ) : Rounds 0 m m
  | succ {k : Nat} {m s n m' : Machine σ} (round : Round op w narrow m s n)
      (goesOn : ¬ times.StopsAfter n.cpu.flags) (rest : Rounds k n m') : Rounds (k + 1) m m'

/-- The ways in which a repetition on `m` ends without another round to follow: the count is zero, a round
    leaves flags that say so, or the work on the next element ends with a fault. -/
inductive Ends : Machine σ → Except Fault Unit × Machine σ → Prop where
  | exhausted {m : Machine σ} (zero : m.cpu.count narrow = 0) : Ends m (.ok (), m)
  | stopped {m s m' : Machine σ} (round : Round op w narrow m s m')
      (stops : times.StopsAfter m'.cpu.flags) : Ends m (.ok (), m')
  | fault {m m' : Machine σ} {e : Fault} (count : m.cpu.count narrow ≠ 0)
      (work : outcome (string op w .none narrow) m = (.error e, m')) : Ends m (.error e, m')

variable {op w times narrow} {m m' s n : Machine σ} {k : Nat} {r : Except Fault Unit × Machine σ}

/-- A round takes one off the count. -/
theorem Round.count_eq (h : Round op w narrow m s n) :
    (n.cpu.count narrow).toNat + 1 = (m.cpu.count narrow).toNat := by
  have hkept := keeps_rcx_stringStep op w narrow m
  have hwork : outcome (stringStep op w narrow) m = (.ok (), s) := h.work
  rw [hwork] at hkept
  have hcount : s.cpu.count narrow = m.cpu.count narrow := Cpu.count_congr hkept
  rw [h.counted, ← hcount]
  exact Cpu.toNat_count_countedDown (hcount ▸ h.count)

/-- Every round takes one off the count. -/
theorem Rounds.count_eq (h : Rounds op w times narrow k m m') :
    k + (m'.cpu.count narrow).toNat = (m.cpu.count narrow).toNat := by
  induction h with
  | zero => exact Nat.zero_add _
  | succ round _ _ ih =>
    have hone := round.count_eq
    omega

/-- With a repetition, there are as many rounds at most as the count register says. -/
theorem outcome_string (htimes : times ≠ .none) (m : Machine σ) :
    outcome (string op w times narrow) m =
      outcome (stringRounds op w times narrow (m.cpu.count narrow).toNat) m := by
  cases times with
  | none => exact absurd rfl htimes
  | rep | repe | repne => rfl

/-- After a complete round a repetition ends early or goes on with the rest. -/
theorem outcome_stringRounds_round (h : Round op w narrow m s n) (k : Nat) :
    outcome (stringRounds op w times narrow (k + 1)) m =
      if endsEarly times n.cpu.flags then (.ok (), n)
      else outcome (stringRounds op w times narrow k) n := by
  have hwork : outcome (stringStep op w narrow) m = (.ok (), s) := h.work
  obtain rfl := h.counted
  simp only [stringRounds, countDown, writeReg, outcome_bind, hwork, outcome_cpu, outcome_modifyCpu]
  show outcome (if endsEarly times (s.cpu.countedDown narrow).flags then _ else _)
    (⟨s.cpu.countedDown narrow, s.bus⟩ : Machine σ) = _
  split
  · rfl
  · rfl

/-- **One round.** If the repetition goes on after a round, it is what a repetition does from there. -/
theorem outcome_string_round (htimes : times ≠ .none) (h : Round op w narrow m s n)
    (goesOn : ¬ times.StopsAfter n.cpu.flags) :
    outcome (string op w times narrow) m = outcome (string op w times narrow) n := by
  rw [outcome_string htimes, ← h.count_eq, outcome_stringRounds_round h,
    if_neg (mt (endsEarly_iff _ _).mp goesOn), ← outcome_string htimes]

/-- **Many rounds.** So it is after any number of rounds after which it goes on. -/
theorem outcome_string_rounds (htimes : times ≠ .none) (h : Rounds op w times narrow k m m') :
    outcome (string op w times narrow) m = outcome (string op w times narrow) m' := by
  induction h with
  | zero => rfl
  | succ round goesOn _ ih => rw [outcome_string_round htimes round goesOn, ih]

/-- **The end.** Where no round goes on, the repetition does what is left. -/
theorem outcome_string_of_ends (htimes : times ≠ .none) (h : Ends op w times narrow m r) :
    outcome (string op w times narrow) m = r := by
  rw [outcome_string htimes]
  cases h with
  | exhausted zero =>
    rw [zero]
    rfl
  | stopped round stops =>
    rw [← round.count_eq, outcome_stringRounds_round round, if_pos ((endsEarly_iff _ _).mpr stops)]
  | fault count work =>
    have hwork : outcome (stringStep op w narrow) m = _ := work
    -- there is a round to do, and its work is what fails
    have hpositive : (m.cpu.count narrow).toNat ≠ 0 := fun hzero => count (UInt64.toNat_inj.mp hzero)
    obtain ⟨k, hk⟩ := Nat.exists_eq_succ_of_ne_zero hpositive
    rw [hk, stringRounds, outcome_bind, hwork]

/-- Every repetition comes to its end. -/
theorem exists_rounds (op : StringOp) (w : Width) (times : Repeat) (narrow : Bool) (m : Machine σ) :
    ∃ k m' r, Rounds op w times narrow k m m' ∧ Ends op w times narrow m' r := by
  -- by induction on the count, which each round takes one off
  induction hcount : (m.cpu.count narrow).toNat generalizing m with
  | zero => exact ⟨0, m, _, .zero m, .exhausted (UInt64.toNat_inj.mp hcount)⟩
  | succ c ih =>
    have hpositive : m.cpu.count narrow ≠ 0 := by
      intro hzero
      rw [hzero] at hcount
      cases hcount
    cases hwork : outcome (string op w .none narrow) m with
    | mk result s =>
      cases result with
      | error e => exact ⟨0, m, _, .zero m, .fault hpositive hwork⟩
      | ok u =>
        have hround : Round op w narrow m s ⟨s.cpu.countedDown narrow, s.bus⟩ :=
          ⟨hpositive, hwork, rfl⟩
        by_cases hstops : times.StopsAfter (s.cpu.countedDown narrow).flags
        · exact ⟨0, m, _, .zero m, .stopped hround hstops⟩
        · obtain ⟨k, m', r, hrounds, hends⟩ := ih _ (Nat.succ.inj (hround.count_eq.trans hcount))
          exact ⟨k + 1, m', r, .succ hround hstops hrounds, hends⟩

/-- **Iteration.** A repetition consists of rounds and an end, and of nothing else. -/
theorem outcome_string_eq_iff (htimes : times ≠ .none) :
    outcome (string op w times narrow) m = r ↔
      ∃ k m', Rounds op w times narrow k m m' ∧ Ends op w times narrow m' r := by
  constructor
  · rintro rfl
    obtain ⟨k, m', r, hrounds, hends⟩ := exists_rounds op w times narrow m
    rw [outcome_string_rounds htimes hrounds, outcome_string_of_ends htimes hends]
    exact ⟨k, m', hrounds, hends⟩
  · rintro ⟨k, m', hrounds, hends⟩
    rw [outcome_string_rounds htimes hrounds, outcome_string_of_ends htimes hends]

end

/-! ### Faults -/

section
variable (op : StringOp) (w : Width) (times : Repeat) (narrow : Bool)

/-- On `m`, the repetition is interrupted by the fault `e` after `k` rounds, on `m'`. -/
structure InterruptedAfter (k : Nat) (m m' : Machine Memory) (e : Fault) : Prop where
  /-- Registers, flags and memory are as the rounds that were completed leave them. -/
  completed : Rounds op w times narrow k m m'
  /-- The count says how many rounds remain, at least one. -/
  remaining : k + (m'.cpu.count narrow).toNat = (m.cpu.count narrow).toNat ∧ m'.cpu.count narrow ≠ 0
  /-- The fault is that of the work on the next element, which changes nothing. -/
  fault : outcome (string op w .none narrow) m' = (.error e, m')
  /-- Executed again on any memory, the instruction does remaining rounds. -/
  resumed : ∀ (b : Memory) (r : Except Fault Unit × Machine Memory),
    outcome (string op w times narrow) ⟨m'.cpu, b⟩ = r ↔
      ∃ j n, Rounds op w times narrow j ⟨m'.cpu, b⟩ n ∧ Ends op w times narrow n r ∧
        k + j + (n.cpu.count narrow).toNat = (m.cpu.count narrow).toNat

variable {op w times narrow} {m m' : Machine Memory} {e : Fault}

/-- A repetition that ends with a fault has completed some rounds and was interrupted in the next. -/
theorem interruptedAfter_of_error (htimes : times ≠ .none)
    (h : outcome (string op w times narrow) m = (.error e, m')) :
    ∃ k, InterruptedAfter op w times narrow k m m' e := by
  obtain ⟨k, n, hrounds, hends⟩ := (outcome_string_eq_iff htimes).mp h
  cases hends with
  | fault count work =>
    -- the work on one element is precise, so that the machine is the one before it
    have hprecise : Precise id (stringStep op w narrow : Exec Memory Unit) := precise_stringStep w op narrow
    have hwork : outcome (stringStep op w narrow) n = (.error e, m') := work
    have hsame := hprecise n e (congrArg Prod.fst hwork)
    rw [hwork] at hsame
    obtain rfl : m' = n := hsame
    refine ⟨k, hrounds, ⟨hrounds.count_eq, count⟩, work, fun b r => ?_⟩
    have htotal := hrounds.count_eq
    constructor
    · intro hr
      obtain ⟨j, n, hmore, hend⟩ := (outcome_string_eq_iff htimes).mp hr
      have hrest : j + _ = (m'.cpu.count narrow).toNat := hmore.count_eq
      exact ⟨j, n, hmore, hend, by omega⟩
    · rintro ⟨j, n, hmore, hend, -⟩
      exact (outcome_string_eq_iff htimes).mpr ⟨j, n, hmore, hend⟩

/-- **Repetition.** As long as the count is not zero, a repeated string instruction does what it does without
    repetition and takes one off the count, and it ends after a round whose flags say so.  A fault leaves what
    the rounds before it left, and the instruction goes on from there when it is executed again.  With a count
    of zero it does nothing. -/
theorem string_iterates (op : StringOp) (w : Width) (narrow : Bool) {times : Repeat}
    (htimes : times ≠ .none) (m : Machine Memory) :
    (∀ r, outcome (string op w times narrow) m = r ↔
      ∃ k m', Rounds op w times narrow k m m' ∧ Ends op w times narrow m' r) ∧
    (∀ e m', outcome (string op w times narrow) m = (.error e, m') →
      ∃ k, InterruptedAfter op w times narrow k m m' e) ∧
    (m.cpu.count narrow = 0 → outcome (string op w times narrow) m = (.ok (), m)) :=
  ⟨fun _ => outcome_string_eq_iff htimes, fun _ _ => interruptedAfter_of_error htimes,
    fun hzero => outcome_string_of_ends htimes (.exhausted hzero)⟩

/-- With a count of four and two bytes at its source, `rep movsb` is interrupted with two rounds to go. Where addresses
    have 32 bits, the count is the lower half of the register, and the upper half is cleared by the first round. -/
theorem string_iterates_shortSource :
    let bus : Memory := (Memory.empty ⟨0x10000, 0x20000⟩).afterCalls
      [.map ⟨0x2000, 0x2002, .readWrite, 0, "source"⟩ (packed [1, 2]),
        .map ⟨0x3000, 0x3004, .readWrite, 0, "target"⟩ (packed [0, 0, 0, 0])]
    let m : Machine Memory :=
      ⟨((Cpu.initial.setGpr .rsi 0x2000).setGpr .rdi 0x3000).setGpr .rcx 0x100000004, bus⟩
    decode 0x1000 [0x67, 0xf3, 0xa4] =
        .ok ⟨0x1000, .ofBytes [0x67, 0xf3, 0xa4], .string .movs .w8 .rep true⟩ ∧
      ∃ m', InterruptedAfter .movs .w8 .rep true 2 m m' (.memory (.unmapped 0x2002 1)) ∧
        m'.cpu.gpr .rcx = 2 ∧ m'.cpu.gpr .rsi = 0x2002 ∧ m'.bus.view? 0x3001 = some (2, .readWrite) := by
  intro bus m
  have hfault : (outcome (string .movs .w8 .rep true) m).1 =
      .error (.memory (.unmapped 0x2002 1)) := by decide +kernel
  have hcount : ((outcome (string .movs .w8 .rep true) m).2.cpu.count true).toNat = 2 := by decide +kernel
  have hfour : (m.cpu.count true).toNat = 4 := by decide +kernel
  have hrep : Repeat.rep ≠ .none := nofun
  obtain ⟨k, hinterrupted⟩ := (string_iterates .movs .w8 true hrep m).2.1 _ _ (Prod.ext hfault rfl)
  obtain rfl : k = 2 := by
    have htotal := hinterrupted.remaining.1
    rw [hcount, hfour] at htotal
    omega
  exact ⟨by decide +kernel, _, hinterrupted, by decide +kernel, by decide +kernel, by decide +kernel⟩

end

end Exec

end Amd64
