import Amd64.Decoder.Basic
import Amd64.Proofs.Arithmetic.Integers
import Amd64.Proofs.Machine.Binding
import Amd64.Proofs.Semantics.Precise.Basic
import Amd64.Semantics.Instruction

namespace Amd64

/-!
# Comparisons

A comparison sets the flags of a difference, and conditions are read off flags.

* `Condition.compares?`       — what a condition says of two numbers, if it is about their order;
* `Condition.holds_subFlags`  — the flags of their difference say the same;
* `Machine.ActsOn`            — jumps, sets and moves go by a truth value;
* `Instruction.compare_decides` — after a comparison they go by the order of the operands.
-/

/-- What a condition says of the low bits of two numbers that are compared, if it is about their order. -/
def Condition.compares? (cond : Condition) (w : Width) (a b : UInt64) : Option Bool :=
  match cond with
  | .b => some (w.toNat a < w.toNat b)
  | .be => some (w.toNat a ≤ w.toNat b)
  | .a => some (w.toNat a > w.toNat b)
  | .ae => some (w.toNat a ≥ w.toNat b)
  | .l => some (w.toInt a < w.toInt b)
  | .le => some (w.toInt a ≤ w.toInt b)
  | .g => some (w.toInt a > w.toInt b)
  | .ge => some (w.toInt a ≥ w.toInt b)
  | .e => some (w.toNat a = w.toNat b)
  | .ne => some (w.toNat a ≠ w.toNat b)
  | .o | .no | .s | .ns | .p | .np => none

/-! ### Flags -/

/-- Numbers with signs are the same if the bits are. -/
theorem Width.toInt_inj (w : Width) {a b : UInt64} : w.toInt a = w.toInt b ↔ w.toNat a = w.toNat b := by
  constructor
  · intro h
    have hmod := congrArg (· % (w.modulus : Int)) h
    simp only [toInt, Int.bmod_emod] at hmod
    have ha := w.toNat_lt a
    have hb := w.toNat_lt b
    rw [Int.emod_eq_of_lt (by omega) (by omega), Int.emod_eq_of_lt (by omega) (by omega)] at hmod
    omega
  · intro h
    rw [toInt, toInt, h]

section
variable (f : Flags) (w : Width) (a b : UInt64)

/-- The carry flag of a difference says that the first number is less, without signs. -/
theorem below_subFlags : (subFlags f w a b false).2.carry = decide (w.toNat a < w.toNat b) :=
  carry_subFlags f w a b false

/-- The zero flag of a difference says that the numbers are the same. -/
theorem equal_subFlags : (subFlags f w a b false).2.zero = decide (w.toNat a = w.toNat b) := by
  have hzero := (isDifference_subFlags f w a b false).flags.zero
  have hbalance := subFlags_balance f w a b false
  have ha := w.toNat_lt a
  have hb := w.toNat_lt b
  rw [Bool.eq_iff_iff, hzero, decide_eq_true_eq]
  rw [below_subFlags, Bool.toNat_false] at hbalance
  by_cases hlt : w.toNat a < w.toNat b
  · rw [decide_eq_true hlt, Bool.toNat_true] at hbalance
    omega
  · rw [decide_eq_false hlt, Bool.toNat_false] at hbalance
    omega

/-- The sign of a difference is wrong if and only if it overflows. -/
theorem less_subFlags : ((subFlags f w a b false).2.sign != (subFlags f w a b false).2.overflow) =
    decide (w.toInt a < w.toInt b) := by
  have hdifference := isDifference_subFlags f w a b false
  have hsign := hdifference.flags.sign
  have hoverflow := hdifference.overflow
  have ha := w.toInt_bounds a
  have hb := w.toInt_bounds b
  rw [toInt_subFlags, w.modulus_eq_two_mul, Bool.toNat_false, bmod_two_mul (by omega) (by omega)] at hsign
  rw [overflows_iff, Bool.toNat_false] at hoverflow
  -- half of the modulus bounds both operands, so the difference has at most one bit too many
  generalize 2 ^ (w.bits - 1) = half at ha hb hsign hoverflow
  have hwrong : ¬ ((subFlags f w a b false).2.sign = true ↔ (subFlags f w a b false).2.overflow = true) ↔
      w.toInt a < w.toInt b := by
    rw [hsign, hoverflow]
    split_ifs <;> omega
  rw [Bool.eq_iff_iff, decide_eq_true_eq, ← hwrong, ← Bool.eq_iff_iff, bne_iff_ne]

/-- **Conditions.** The flags of a difference decide the order of its operands. -/
theorem Condition.holds_subFlags {cond : Condition} {v : Bool} (h : cond.compares? w a b = some v) :
    cond.holds (subFlags f w a b false).2 = v := by
  have hbelow := below_subFlags f w a b
  have hequal := equal_subFlags f w a b
  have hless := less_subFlags f w a b
  cases cond with
  | o | no | s | ns | p | np => cases h
  | b =>
    obtain rfl := Option.some.inj h
    exact hbelow
  | e =>
    obtain rfl := Option.some.inj h
    exact hequal
  | be | a | ae | ne =>
    obtain rfl := Option.some.inj h
    -- the flags tell below and equal, and only one of them can be
    simp only [holds, hbelow, hequal]
    by_cases hlt : w.toNat a < w.toNat b <;> by_cases heq : w.toNat a = w.toNat b <;>
      simp [hlt, heq] <;> omega
  | l =>
    obtain rfl := Option.some.inj h
    exact hless
  | le | g | ge =>
    obtain rfl := Option.some.inj h
    -- the same with sign, where equal numbers are equal without it too
    have hinj := w.toInt_inj (a := a) (b := b)
    have heven : ∀ p q : Bool, (p == q) = !(p != q) := by decide
    simp only [holds, heven, hequal, hless, ← hinj]
    by_cases hlt : w.toInt a < w.toInt b <;> by_cases heq : w.toInt a = w.toInt b <;>
      simp [hlt, heq] <;> omega

end

/-- No condition looks at the reserved flag. -/
theorem Condition.holds_withReserved (cond : Condition) (f : Flags) :
    cond.holds f.withReserved = cond.holds f := by
  cases cond <;> rfl

/-! ### Instructions that go by a condition -/

section
variable {σ : Type} [Bus σ]

/-- A conditional move looks at flags and destination behind its source, which leaves them. -/
theorem Exec.outcome_cmovcc (cond : Condition) (dst : Reg) (src : Location) (w : Width) (m : Machine σ) :
    outcome (Exec.cmovcc cond dst src w) m =
      outcome (do
        let x ← src.read w
        Exec.writeReg dst (if m.cpu.holds cond then x else m.cpu.readReg dst)) m := by
  have hkept := src.keeps_cpu_read w m
  simp only [Exec.cmovcc, outcome_bind, Exec.outcome_cpu]
  generalize outcome (src.read w) m = result at hkept ⊢
  obtain ⟨e | x, m'⟩ := result
  · rfl
  · dsimp only at hkept ⊢
    rw [hkept]

/-- On `m`, instructions that go by a condition go by the truth value `v`. -/
structure Machine.ActsOn (m : Machine σ) (cond : Condition) (v : Bool) : Prop where
  /-- A jump is taken if `v` is true. -/
  jump : ∀ (i : Instruction) (target : UInt64), i.operation = .jcc cond target →
    outcome (i.execute i.binding) m = (.ok (.next (if v then target else i.next)), m)
  /-- A set writes one if `v` is true, else zero. -/
  set : ∀ (i : Instruction) (dst : Operand), i.operation = .setcc cond dst →
    outcome (i.execute i.binding) m =
      outcome (do
        (dst.bind i.next).write .w8 (if v then 1 else 0)
        return Outcome.next i.next) m
  /-- A move reads its source in any case. It writes it if `v` is true, else it writes the destination
      back. -/
  move : ∀ (i : Instruction) (dst : Reg) (src : Operand) (w : Width),
    i.operation = .cmovcc cond dst src w →
    outcome (i.execute i.binding) m =
      outcome (do
        let x ← (src.bind i.next).read w
        Exec.writeReg dst (if v then x else m.cpu.readReg dst)
        return Outcome.next i.next) m

/-- Instructions go by what the flags say. -/
theorem Machine.actsOn_holds (m : Machine σ) (cond : Condition) : m.ActsOn cond (m.cpu.holds cond) := by
  constructor
  case jump =>
    intro i target h
    simp only [Instruction.execute, h]
    rfl
  case set =>
    intro i dst h
    have hdst : i.binding.get 0 = dst.bind i.next := Instruction.get_binding (by rw [h]; rfl)
    simp only [Instruction.execute, h, hdst, Exec.setcc, outcome_bind, Exec.outcome_cpu]
  case move =>
    intro i dst src w h
    have hsrc : i.binding.get 1 = src.bind i.next := Instruction.get_binding (by rw [h]; rfl)
    simp only [Instruction.execute, h, hsrc]
    rw [outcome_bind, Exec.outcome_cmovcc, ← outcome_bind, bind_assoc]

namespace Instruction

/-- A comparison that can read its operands sets the flags of their difference. -/
theorem execute_cmp {i : Instruction} {lhs rhs : Operand} {w : Width} {a b : UInt64}
    {m m₁ m₂ : Machine σ} (hcmp : i.operation = .cmp lhs rhs w)
    (ha : outcome ((lhs.bind i.next).read w) m = (.ok a, m₁))
    (hb : outcome ((rhs.bind i.next).read w) m₁ = (.ok b, m₂)) :
    outcome (i.execute i.binding) m =
      (.ok (.next i.next), ⟨m.cpu.setFlags (subFlags m.cpu.flags w a b false).2, m₂.bus⟩) := by
  have hkept : m₂.cpu = m.cpu := by
    have hleft := (lhs.bind i.next).keeps_cpu_read w m
    have hright := (rhs.bind i.next).keeps_cpu_read w m₁
    rw [ha] at hleft
    rw [hb] at hright
    exact hright.trans hleft
  have hlhs : i.binding.get 0 = lhs.bind i.next := Instruction.get_binding (by rw [hcmp]; rfl)
  have hrhs : i.binding.get 1 = rhs.bind i.next := Instruction.get_binding (by rw [hcmp]; rfl)
  simp only [execute, hcmp, hlhs, hrhs, Exec.cmp, outcome_bind, ha, hb, Exec.outcome_cpu, hkept]
  show (_, (⟨m₂.cpu.setFlags _, m₂.bus⟩ : Machine σ)) = _
  rw [hkept]

/-- **Comparisons.** After a comparison of the numbers `a` and `b`, each condition on their order has the
    truth value that it has of the numbers, and on a machine with these flags each jump, set and move goes
    by it. -/
theorem compare_decides {i : Instruction} {lhs rhs : Operand} {w : Width} {a b : UInt64}
    {m m₁ m₂ : Machine σ} (hcmp : i.operation = .cmp lhs rhs w)
    (ha : outcome ((lhs.bind i.next).read w) m = (.ok a, m₁))
    (hb : outcome ((rhs.bind i.next).read w) m₁ = (.ok b, m₂)) :
    ∃ f, outcome (i.execute i.binding) m = (.ok (.next i.next), ⟨m.cpu.setFlags f, m₂.bus⟩) ∧
      ∀ cond v, cond.compares? w a b = some v →
        ∀ n : Machine σ, n.cpu.flags = (m.cpu.setFlags f).flags →
          n.cpu.holds cond = v ∧ n.ActsOn cond v := by
  refine ⟨_, execute_cmp hcmp ha hb, fun cond v hv n hflags => ?_⟩
  have hholds : n.cpu.holds cond = v := by
    rw [Cpu.holds, hflags]
    exact (cond.holds_withReserved _).trans (cond.holds_subFlags _ w a b hv)
  exact ⟨hholds, hholds ▸ n.actsOn_holds cond⟩

end Instruction

end

namespace Instruction

/-- `cmp byte [rdi], 1` at the smallest signed number: a jump on less is taken, a jump on below is not. -/
theorem compare_decides_smallest :
    let bus : Memory := (Memory.empty ⟨0x10000, 0x20000⟩).afterCalls
      [.map ⟨0x2000, 0x2001, .readWrite, 0, "byte"⟩ (packed [0x80])]
    let m : Machine Memory := ⟨Cpu.initial.setGpr .rdi 0x2000, bus⟩
    let cmp : Instruction := ⟨0x1000, .ofBytes [0x80, 0x3f, 0x01],
      .cmp (.mem ⟨.register .rdi, none, .one, 0, none, false⟩) (.imm 1) .w8⟩
    let jl : Instruction := ⟨0x1003, .ofBytes [0x7c, 0x10], .jcc .l 0x1015⟩
    let jb : Instruction := ⟨0x1003, .ofBytes [0x72, 0x10], .jcc .b 0x1015⟩
    decode 0x1000 [0x80, 0x3f, 0x01] = .ok cmp ∧ decode 0x1003 [0x7c, 0x10] = .ok jl ∧
      decode 0x1003 [0x72, 0x10] = .ok jb ∧
      ∃ f, outcome (cmp.execute cmp.binding) m = (.ok (.next 0x1003), ⟨m.cpu.setFlags f, bus⟩) ∧
        outcome (jl.execute jl.binding) ⟨m.cpu.setFlags f, bus⟩ =
          (.ok (.next 0x1015), ⟨m.cpu.setFlags f, bus⟩) ∧
        outcome (jb.execute jb.binding) ⟨m.cpu.setFlags f, bus⟩ =
          (.ok (.next 0x1005), ⟨m.cpu.setFlags f, bus⟩) := by
  intro bus m cmp jl jb
  have hread : ∀ (l : Location) (x : UInt64), (outcome (l.read .w8) m).1 = .ok x →
      outcome (l.read .w8) m = (.ok x, m) := by
    intro l x hx
    have hkept : Exec.Keeps id (l.read .w8 : Exec Memory UInt64) := l.keeps_read .w8
    exact Prod.ext hx (hkept m)
  obtain ⟨f, hcmp, hdecides⟩ := compare_decides (i := cmp) (m := m) rfl
    (hread _ 0x80 (by decide +kernel)) (hread _ 1 (by decide +kernel))
  have hless := (hdecides .l true (by decide +kernel) ⟨m.cpu.setFlags f, bus⟩ rfl).2
  have hbelow := (hdecides .b false (by decide +kernel) ⟨m.cpu.setFlags f, bus⟩ rfl).2
  exact ⟨by decide +kernel, by decide +kernel, by decide +kernel, f, hcmp, hless.jump jl _ rfl,
    hbelow.jump jb _ rfl⟩

end Instruction

end Amd64
