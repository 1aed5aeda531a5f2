import Amd64.Decoder.Basic
import Amd64.Proofs.Arithmetic.Products
import Amd64.Proofs.Machine.Binding
import Amd64.Proofs.Machine.Views
import Amd64.Proofs.Semantics.Precise.Basic
import Amd64.Semantics.Instruction

namespace Amd64

/-!
# Multiplication and division

* `Cpu.pair`, `Cpu.signedPair` — the double-width number in the data register and the accumulator;
* `Width.remainderReg`         — where its high half is, and the remainder of a division;
* `Cpu.pair_eq_double`         — bytes have it in `ax`, which is a pair of halves like the others;
* `Cpu.halves_writePair`       — both halves are written to where they are read;
* `Instruction.MultipliesDivides` — what products and quotients leave in registers and flags;
* `Instruction.multiply_divide_exact` — instructions leave this.
-/

/-- The register that a remainder is left in: `ah` for bytes, else the data register. -/
def Width.remainderReg : Width → Reg
  | w8 => .high .rax
  | w => .low .rdx w

/-- It is the one that holds the high half of a number. -/
theorem Exec.highHalf_eq_readReg (s : Cpu) (w : Width) : highHalf s w = s.readReg w.remainderReg := by
  cases w <;> rfl

namespace Cpu

/-- The number in `ax` for bytes, else in the data register and the accumulator. -/
def pair (s : Cpu) : Width → Nat
  | .w8 => (s.readReg (.low .rax .w16)).toNat
  | w => (s.readReg (.low .rdx w)).toNat * 2 ^ w.bits + (s.readReg (.low .rax w)).toNat

/-- The same number in two's complement. -/
def signedPair (s : Cpu) (w : Width) : Int :=
  (s.pair w : Int).bmod (2 ^ (2 * w.bits))

/-- Writes the number with two halves to where it is read. -/
def writePair (s : Cpu) (w : Width) (low high : UInt64) : Cpu :=
  match w with
  | .w8 => s.writeReg (.low .rax .w16) (low ||| (high <<< 8))
  | _ => (s.writeReg (.low .rax w) low).writeReg (.low .rdx w) high

variable (s : Cpu) (w : Width)

/-- The high half has as many bits as the low one. -/
theorem toNat_remainderReg_lt : (s.readReg w.remainderReg).toNat < 2 ^ w.bits := by
  cases w with
  | w8 => exact s.toNat_readReg_lt (.high .rax)
  | w16 | w32 | w64 => exact s.toNat_readReg_lt (.low .rdx _)

/-- The number is made of both halves, for bytes too. -/
theorem pair_eq_double : s.pair w = w.double (s.readReg w.remainderReg) (s.readReg (.low .rax w)) := by
  have hlow : (s.readReg (.low .rax w)).toNat < 2 ^ w.bits := s.toNat_readReg_lt (.low .rax w)
  rw [Width.double, Width.toNat_of_lt (s.toNat_remainderReg_lt w), Width.toNat_of_lt hlow]
  cases w with
  | w8 =>
    -- `ax` is `al` and the byte above it
    rw [pair, Width.remainderReg, toNat_readReg, toNat_readReg, toNat_readReg]
    simp only [Reg.gpr, Reg.shift, Reg.width, Width.bits, Nat.reducePow, Nat.div_one]
    omega
  | w16 | w32 | w64 => rfl

/-- The pair of registers is the number that a division with the sign divides. -/
theorem signedPair_eq_signedDouble :
    s.signedPair w = w.signedDouble (s.readReg w.remainderReg) (s.readReg (.low .rax w)) := by
  rw [signedPair, pair_eq_double, Width.bmod_double]

/-- Two bytes do not overlap in a word. -/
theorem toNat_or_shiftLeft_eight {low high : UInt64} (hlow : low.toNat < 2 ^ 8)
    (hhigh : high.toNat < 2 ^ 8) :
    (low ||| (high <<< (8 : UInt64))).toNat = high.toNat * 2 ^ 8 + low.toNat := by
  have hshifted : (high <<< (8 : UInt64)).toNat = high.toNat <<< 8 := by
    rw [UInt64.toNat_shiftLeft]
    show high.toNat <<< 8 % 2 ^ 64 = high.toNat <<< 8
    rw [Nat.shiftLeft_eq]
    omega
  rw [UInt64.toNat_or, hshifted, Nat.or_comm, ← Nat.shiftLeft_add_eq_or_of_lt hlow, Nat.shiftLeft_eq]

variable {w} {low high : UInt64}

/-- The pair holds what was written to its halves. -/
theorem pair_writePair (hlow : low.toNat < 2 ^ w.bits) (hhigh : high.toNat < 2 ^ w.bits) :
    (s.writePair w low high).pair w = w.double high low := by
  rw [Width.double, Width.toNat_of_lt hlow, Width.toNat_of_lt hhigh]
  have hself : ∀ (t : Cpu) (g : Gpr) (v : UInt64), v.toNat < 2 ^ w.bits →
      (t.writeReg (.low g w) v).readReg (.low g w) = v := fun t g v hv => by
    rw [readReg_writeReg_self]
    exact Width.truncate_of_lt hv
  have hother : ∀ t : Cpu, (t.writeReg (.low .rdx w) high).readReg (.low .rax w) =
      t.readReg (.low .rax w) :=
    fun t => t.readReg_writeReg_of_ne _ _ (show Gpr.rdx ≠ Gpr.rax by decide)
  cases w with
  | w8 =>
    simp only [Width.bits] at hlow hhigh
    have hbytes := toNat_or_shiftLeft_eight hlow hhigh
    have hword : (low ||| (high <<< (8 : UInt64))).toNat < 2 ^ Width.w16.bits := by
      rw [hbytes, Width.bits]
      omega
    rw [writePair, pair, readReg_writeReg_self, Reg.width, Width.truncate_of_lt hword, hbytes, Width.bits]
  | w16 | w32 | w64 => simp only [writePair, pair, hself _ _ _ hhigh, hother, hself _ _ _ hlow]

/-- What is written as the halves of a number is read as its halves. -/
theorem halves_writePair (hlow : low.toNat < 2 ^ w.bits) (hhigh : high.toNat < 2 ^ w.bits) :
    (s.writePair w low high).readReg w.remainderReg = high ∧
      (s.writePair w low high).readReg (.low .rax w) = low := by
  have hread : ((s.writePair w low high).readReg (.low .rax w)).toNat < 2 ^ w.bits :=
    toNat_readReg_lt _ (.low .rax w)
  have hpair := s.pair_writePair hlow hhigh
  rw [pair_eq_double] at hpair
  obtain ⟨h, l⟩ := Width.double_inj hpair
  rw [Width.toNat_of_lt hhigh, Width.toNat_of_lt (toNat_remainderReg_lt _ w)] at h
  rw [Width.toNat_of_lt hlow, Width.toNat_of_lt hread] at l
  exact ⟨UInt64.toNat_inj.mp h, UInt64.toNat_inj.mp l⟩

end Cpu

/-! ### Executing -/

namespace Exec

variable {σ : Type} [Bus σ] {l : Location} {w : Width} {b : UInt64} {m : Machine σ}

omit [Bus σ] in
/-- The pair is written without faults. -/
theorem outcome_writePair (low high : UInt64) (m : Machine σ) :
    outcome (writePair w low high) m = (.ok (), ⟨m.cpu.writePair w low high, m.bus⟩) := by
  cases w <;> rfl

/-- A product goes to the pair, and the flags say whether its upper half counts. -/
theorem outcome_multiply {product : Width → UInt64 → UInt64 → Product} {p : Product}
    (hread : outcome (l.read w) m = (.ok b, m))
    (hp : product w (m.cpu.readReg (.low .rax w)) b = p) :
    outcome (multiply product l w) m =
      (.ok (), ⟨(m.cpu.writePair w p.low p.high).setFlags
        (m.cpu.flags.withCarryOverflow p.overflow p.overflow), m.bus⟩) := by
  simp only [multiply, outcome_bind, hread, outcome_cpu, hp, outcome_writePair]
  rfl

/-- A division writes quotient and remainder, or it faults and writes nothing. -/
theorem outcome_divide {quotient : Width → UInt64 → UInt64 → UInt64 → Option (UInt64 × UInt64)}
    (hread : outcome (l.read w) m = (.ok b, m)) :
    outcome (divide quotient l w) m =
      match quotient w (m.cpu.readReg w.remainderReg) (m.cpu.readReg (.low .rax w)) b with
      | none => (.error (.divide m.cpu.rip), m)
      | some (q, r) => (.ok (), ⟨m.cpu.writePair w q r, m.bus⟩) := by
  simp only [divide, outcome_bind, hread, outcome_cpu, highHalf_eq_readReg]
  cases quotient w (m.cpu.readReg w.remainderReg) (m.cpu.readReg (.low .rax w)) b with
  | none => rfl
  | some qr => exact outcome_writePair qr.1 qr.2 m

/-- A product of two operands goes to one register, and the flags say whether it fits. -/
theorem outcome_imul {dst : Reg} {imm : Option UInt64} {p : Product}
    (hread : outcome (l.read w) m = (.ok b, m))
    (hp : imulWide w ((imm.map w.truncate).getD (m.cpu.readReg dst)) b = p) :
    outcome (imul dst l imm w) m =
      (.ok (), ⟨(m.cpu.writeReg dst p.low).setFlags
        (m.cpu.flags.withCarryOverflow p.overflow p.overflow), m.bus⟩) := by
  cases imm with
  | none =>
    rw [Option.map_none, Option.getD_none] at hp
    simp only [imul, outcome_bind, hread, outcome_cpu, hp]
    rfl
  | some v =>
    rw [Option.map_some, Option.getD_some] at hp
    simp only [imul, outcome_bind, hread, outcome_cpu, hp]
    rfl

end Exec

/-! ### Main statement -/

/-- Carry and overflow of `t` tell whether `lost` holds, and the other flags are those of `s`. -/
structure Cpu.Reports (s t : Cpu) (lost : Prop) : Prop where
  carry : t.flags.carry = true ↔ lost
  overflow : t.flags.overflow = true ↔ lost
  kept : t.flags = (s.flags.withCarryOverflow t.flags.carry t.flags.overflow).withReserved

/-- Both flags report what was lost. -/
theorem Cpu.reports_setFlags {s : Cpu} {lost : Prop} {o : Bool} (h : o = true ↔ lost) (t : Cpu) :
    s.Reports (t.setFlags (s.flags.withCarryOverflow o o)) lost :=
  ⟨h, h, rfl⟩

theorem Cpu.readReg_setFlags (s : Cpu) (f : Flags) (r : Reg) : (s.setFlags f).readReg r = s.readReg r := by
  cases r <;> rfl

theorem Cpu.pair_setFlags (s : Cpu) (f : Flags) (w : Width) : (s.setFlags f).pair w = s.pair w := by
  cases w <;> rfl

namespace Instruction

/-- The instruction succeeds, leaves memory as it was, and leaves registers with `P`. -/
def Leaves (i : Instruction) (m : Machine Memory) (P : Cpu → Prop) : Prop :=
  ∃ t, outcome (i.execute i.binding) m = (.ok (.next i.next), ⟨t, m.bus⟩) ∧ P t

/-- The instruction ends with a fault of division and changes nothing. -/
def FailsToDivide (i : Instruction) (m : Machine Memory) : Prop :=
  outcome (i.execute i.binding) m = (.error (.divide m.cpu.rip), m)

variable {i : Instruction} {src : Operand} {w : Width} {b : UInt64} {m : Machine Memory}

/-- Such an instruction does its work and goes on to the next. -/
theorem execute_mulDiv {op : MulDivOp} (h : i.operation = .mulDiv op src w) :
    (i.execute i.binding : Exec Memory Outcome) = (do
      Exec.mulDiv op (src.bind i.next) w
      return .next i.next) := by
  have hsrc : i.binding.get 0 = src.bind i.next := Instruction.get_binding (by rw [h]; rfl)
  simp only [execute, h, hsrc]

/-- An instruction whose work succeeds goes on behind itself. -/
theorem leaves_of_work {work : Exec Memory Unit} {t : Cpu} {P : Cpu → Prop}
    (hwork : (i.execute i.binding : Exec Memory Outcome) = (do work; return .next i.next))
    (hok : outcome work m = (.ok (), ⟨t, m.bus⟩)) (ht : P t) : i.Leaves m P := by
  refine ⟨t, ?_, ht⟩
  rw [hwork, outcome_bind, hok]
  rfl

/-- An instruction whose work fails to divide does so. -/
theorem fails_of_work {work : Exec Memory Unit}
    (hwork : (i.execute i.binding : Exec Memory Outcome) = (do work; return .next i.next))
    (hfails : outcome work m = (.error (.divide m.cpu.rip), m)) : i.FailsToDivide m := by
  rw [FailsToDivide, hwork, outcome_bind, hfails]

/-- A product leaves the pair and both flags. -/
theorem leaves_multiply {product : Width → UInt64 → UInt64 → Product} {op : MulDivOp} {lost : Prop}
    (h : i.operation = .mulDiv op src w)
    (hop : (Exec.mulDiv op (src.bind i.next) w : Exec Memory Unit) =
      Exec.multiply product (src.bind i.next) w)
    (hread : outcome ((src.bind i.next).read w) m = (.ok b, m))
    (hlow : (product w (m.cpu.readReg (.low .rax w)) b).low.toNat < 2 ^ w.bits)
    (hhigh : (product w (m.cpu.readReg (.low .rax w)) b).high.toNat < 2 ^ w.bits)
    (hlost : (product w (m.cpu.readReg (.low .rax w)) b).overflow = true ↔ lost) :
    i.Leaves m fun t =>
      t.pair w = w.double (product w (m.cpu.readReg (.low .rax w)) b).high
        (product w (m.cpu.readReg (.low .rax w)) b).low ∧ m.cpu.Reports t lost := by
  refine leaves_of_work (execute_mulDiv h) (hop ▸ Exec.outcome_multiply hread rfl)
    ⟨?_, m.cpu.reports_setFlags hlost _⟩
  rw [Cpu.pair_setFlags, Cpu.pair_writePair _ hlow hhigh]

/-- What the instruction does on `m` if it multiplies or divides by an operand whose value is `b`. -/
structure MultipliesDivides (i : Instruction) (m : Machine Memory) (src : Operand) (w : Width)
    (b : UInt64) : Prop where
  /-- The whole product of numbers without sign is left. -/
  mul : i.operation = .mulDiv .mul src w → i.Leaves m fun t =>
    t.pair w = w.toNat (m.cpu.readReg (.low .rax w)) * w.toNat b ∧
      m.cpu.Reports t (2 ^ w.bits ≤ w.toNat (m.cpu.readReg (.low .rax w)) * w.toNat b)
  /-- The whole product of numbers with sign is left. -/
  imul : i.operation = .mulDiv .imul src w → i.Leaves m fun t =>
    t.signedPair w = w.toInt (m.cpu.readReg (.low .rax w)) * w.toInt b ∧
      m.cpu.Reports t (Overflows w.bits (w.toInt (m.cpu.readReg (.low .rax w)) * w.toInt b))
  /-- Into a register, the low bits of the product with it or with an immediate value are left. -/
  imulInto : ∀ dst imm, i.operation = .imul dst src imm w → dst.width = w → i.Leaves m fun t =>
    ((t.readReg dst).toNat : Int) = w.toInt (imm.getD (m.cpu.readReg dst)) * w.toInt b % 2 ^ w.bits ∧
      m.cpu.Reports t (Overflows w.bits (w.toInt (imm.getD (m.cpu.readReg dst)) * w.toInt b))
  /-- There is no quotient by zero, and none that does not fit. -/
  div_fails : i.operation = .mulDiv .div src w →
    w.toNat b = 0 ∨ 2 ^ w.bits ≤ m.cpu.pair w / w.toNat b → i.FailsToDivide m
  /-- Quotient and remainder are left where the halves of the dividend were. -/
  div : i.operation = .mulDiv .div src w →
    ¬ (w.toNat b = 0 ∨ 2 ^ w.bits ≤ m.cpu.pair w / w.toNat b) → i.Leaves m fun t =>
      m.cpu.pair w = (t.readReg (.low .rax w)).toNat * w.toNat b + (t.readReg w.remainderReg).toNat ∧
        (t.readReg w.remainderReg).toNat < w.toNat b
  /-- There is no quotient by zero, and none that does not fit. -/
  idiv_fails : i.operation = .mulDiv .idiv src w →
    w.toInt b = 0 ∨ Overflows w.bits ((m.cpu.signedPair w).tdiv (w.toInt b)) → i.FailsToDivide m
  /-- Quotient and remainder are left where the halves of the dividend were. -/
  idiv : i.operation = .mulDiv .idiv src w →
    ¬ (w.toInt b = 0 ∨ Overflows w.bits ((m.cpu.signedPair w).tdiv (w.toInt b))) →
      i.Leaves m fun t => IsQuotient (m.cpu.signedPair w) (w.toInt b)
        (w.toInt (t.readReg (.low .rax w))) (w.toInt (t.readReg w.remainderReg))
  /-- A product divided by one of its factors is the other factor. -/
  restores : i.operation = .mulDiv .mul src w → w.toNat b ≠ 0 → i.Leaves m fun t =>
    ∀ (j : Instruction) (src' : Operand) (b' : UInt64), j.operation = .mulDiv .div src' w →
      outcome ((src'.bind j.next).read w) ⟨t, m.bus⟩ = (.ok b', ⟨t, m.bus⟩) →
      w.toNat b' = w.toNat b → j.Leaves ⟨t, m.bus⟩ fun u =>
        u.readReg (.low .rax w) = m.cpu.readReg (.low .rax w) ∧ u.readReg w.remainderReg = 0

section
variable (hread : outcome ((src.bind i.next).read w) m = (.ok b, m))
include hread

/-- Without signs the pair holds the whole product. -/
theorem leaves_mul (h : i.operation = .mulDiv .mul src w) : i.Leaves m fun t =>
    t.pair w = w.toNat (m.cpu.readReg (.low .rax w)) * w.toNat b ∧
      m.cpu.Reports t (2 ^ w.bits ≤ w.toNat (m.cpu.readReg (.low .rax w)) * w.toNat b) := by
  obtain ⟨t, hok, hpair, hreports⟩ := leaves_multiply h rfl hread (w.toNat_truncate_lt _)
    (w.toNat_truncate_lt _) (overflow_mulWide w _ b)
  exact ⟨t, hok, hpair.trans (double_mulWide w _ b), hreports⟩

/-- With signs the pair holds the whole product. -/
theorem leaves_imul (h : i.operation = .mulDiv .imul src w) : i.Leaves m fun t =>
    t.signedPair w = w.toInt (m.cpu.readReg (.low .rax w)) * w.toInt b ∧
      m.cpu.Reports t (Overflows w.bits (w.toInt (m.cpu.readReg (.low .rax w)) * w.toInt b)) := by
  obtain ⟨t, hok, hpair, hreports⟩ := leaves_multiply h rfl hread (w.toNat_truncate_lt _)
    (w.toNat_truncate_lt _) (overflow_imulWide w _ b)
  refine ⟨t, hok, ?_, hreports⟩
  rw [Cpu.signedPair, hpair, Width.bmod_double, signedDouble_imulWide]

/-- A product into one register is cut, and the flags say whether that lost something. -/
theorem leaves_imulInto {dst : Reg} {imm : Option UInt64} (h : i.operation = .imul dst src imm w)
    (hdst : dst.width = w) : i.Leaves m fun t =>
      ((t.readReg dst).toNat : Int) =
          w.toInt (imm.getD (m.cpu.readReg dst)) * w.toInt b % 2 ^ w.bits ∧
        m.cpu.Reports t (Overflows w.bits (w.toInt (imm.getD (m.cpu.readReg dst)) * w.toInt b)) := by
  have hsrc : i.binding.get 1 = src.bind i.next := Instruction.get_binding (by rw [h]; rfl)
  -- an immediate value is truncated first, which does not change the number
  have hfactor : w.toInt ((imm.map w.truncate).getD (m.cpu.readReg dst)) =
      w.toInt (imm.getD (m.cpu.readReg dst)) := by
    cases imm with
    | none => rfl
    | some v => exact w.toInt_of_truncate v
  have hwork : (i.execute i.binding : Exec Memory Outcome) = (do
      Exec.imul dst (src.bind i.next) imm w
      return .next i.next) := by
    simp only [execute, h, hsrc]
  refine leaves_of_work hwork (Exec.outcome_imul hread rfl) ⟨?_, ?_⟩
  · have hlow : ∀ a, (imulWide w a b).low.toNat < 2 ^ w.bits := fun _ => w.toNat_truncate_lt _
    rw [Cpu.readReg_setFlags, Cpu.readReg_writeReg_self, hdst, Width.truncate_of_lt (hlow _),
      toNat_low_imulWide, hfactor]
  · rw [← hfactor]
    exact m.cpu.reports_setFlags (overflow_imulWide w _ b) _

/-- A division without signs fails by zero and with a quotient that does not fit. -/
theorem fails_div (h : i.operation = .mulDiv .div src w)
    (hnone : w.toNat b = 0 ∨ 2 ^ w.bits ≤ m.cpu.pair w / w.toNat b) : i.FailsToDivide m := by
  rw [m.cpu.pair_eq_double, ← divWide?_eq_none_iff] at hnone
  exact fails_of_work (execute_mulDiv h) ((Exec.outcome_divide hread).trans (by rw [hnone]))

/-- Otherwise it leaves quotient and remainder. -/
theorem leaves_div (h : i.operation = .mulDiv .div src w)
    (hsome : ¬ (w.toNat b = 0 ∨ 2 ^ w.bits ≤ m.cpu.pair w / w.toNat b)) : i.Leaves m fun t =>
      m.cpu.pair w = (t.readReg (.low .rax w)).toNat * w.toNat b + (t.readReg w.remainderReg).toNat ∧
        (t.readReg w.remainderReg).toNat < w.toNat b := by
  rw [m.cpu.pair_eq_double, ← divWide?_eq_none_iff] at hsome
  obtain ⟨⟨q, r⟩, hqr⟩ := Option.ne_none_iff_exists'.mp hsome
  obtain ⟨hsplit, hsmall, hq⟩ := divWide?_eq_some w _ _ b hqr
  obtain ⟨hhigh, hlow⟩ := m.cpu.halves_writePair hq (hsmall.trans (w.toNat_lt_two_pow b))
  refine leaves_of_work (execute_mulDiv h) ((Exec.outcome_divide hread).trans (by rw [hqr])) ?_
  rw [hhigh, hlow, m.cpu.pair_eq_double]
  exact ⟨hsplit, hsmall⟩

/-- A division with signs fails by zero and with a quotient that does not fit. -/
theorem fails_idiv (h : i.operation = .mulDiv .idiv src w)
    (hnone : w.toInt b = 0 ∨ Overflows w.bits ((m.cpu.signedPair w).tdiv (w.toInt b))) :
    i.FailsToDivide m := by
  rw [m.cpu.signedPair_eq_signedDouble, ← idivWide?_eq_none_iff] at hnone
  exact fails_of_work (execute_mulDiv h) ((Exec.outcome_divide hread).trans (by rw [hnone]))

/-- Otherwise it leaves a quotient that is cut towards zero and its remainder. -/
theorem leaves_idiv (h : i.operation = .mulDiv .idiv src w)
    (hsome : ¬ (w.toInt b = 0 ∨ Overflows w.bits ((m.cpu.signedPair w).tdiv (w.toInt b)))) :
    i.Leaves m fun t => IsQuotient (m.cpu.signedPair w) (w.toInt b)
      (w.toInt (t.readReg (.low .rax w))) (w.toInt (t.readReg w.remainderReg)) := by
  rw [m.cpu.signedPair_eq_signedDouble, ← idivWide?_eq_none_iff] at hsome
  obtain ⟨⟨q, r⟩, hqr⟩ := Option.ne_none_iff_exists'.mp hsome
  obtain ⟨hquotient, hq, hr⟩ := idivWide?_eq_some w _ _ b hqr
  obtain ⟨hhigh, hlow⟩ := m.cpu.halves_writePair hq hr
  refine leaves_of_work (execute_mulDiv h) ((Exec.outcome_divide hread).trans (by rw [hqr])) ?_
  rw [hhigh, hlow, m.cpu.signedPair_eq_signedDouble]
  exact hquotient

/-- To multiply and divide by the same number gives the first factor back. -/
theorem leaves_restores (h : i.operation = .mulDiv .mul src w) (hb : w.toNat b ≠ 0) :
    i.Leaves m fun t =>
      ∀ (j : Instruction) (src' : Operand) (b' : UInt64), j.operation = .mulDiv .div src' w →
        outcome ((src'.bind j.next).read w) ⟨t, m.bus⟩ = (.ok b', ⟨t, m.bus⟩) →
        w.toNat b' = w.toNat b → j.Leaves ⟨t, m.bus⟩ fun u =>
          u.readReg (.low .rax w) = m.cpu.readReg (.low .rax w) ∧ u.readReg w.remainderReg = 0 := by
  obtain ⟨t, hok, hpair, -⟩ := leaves_mul hread h
  refine ⟨t, hok, fun j src' b' hj hread' hb' => ?_⟩
  have hacc : (m.cpu.readReg (.low .rax w)).toNat < 2 ^ w.bits := m.cpu.toNat_readReg_lt (.low .rax w)
  rw [Width.toNat_of_lt hacc] at hpair
  -- the first factor is the quotient, and it fits
  have hsome : ¬ (w.toNat b' = 0 ∨ 2 ^ w.bits ≤ t.pair w / w.toNat b') := by
    rw [hb', hpair, Nat.mul_div_cancel _ (Nat.pos_of_ne_zero hb)]
    omega
  obtain ⟨u, hdiv, hsplit, hsmall⟩ := leaves_div (m := ⟨t, m.bus⟩) hread' hj hsome
  rw [hb', show (⟨t, m.bus⟩ : Machine Memory).cpu.pair w = _ from hpair] at hsplit
  rw [hb'] at hsmall
  -- what is less than the divisor is the remainder, so the other summand is the quotient
  have hquotient := congrArg (· / w.toNat b) hsplit
  have hremainder := congrArg (· % w.toNat b) hsplit
  simp only [Nat.mul_comm _ (w.toNat b), Nat.mul_add_div (Nat.pos_of_ne_zero hb), Nat.mul_add_mod,
    Nat.div_eq_of_lt hsmall, Nat.mod_eq_of_lt hsmall, Nat.mul_div_cancel_left _ (Nat.pos_of_ne_zero hb),
    Nat.mul_mod_right, Nat.add_zero] at hquotient hremainder
  exact ⟨u, hdiv, UInt64.toNat_inj.mp hquotient.symm, UInt64.toNat_inj.mp hremainder.symm⟩

/-- **Multiplication and division.** An instruction that can read its operand multiplies or divides exactly
    by it, and division fails if and only if there is no quotient. -/
theorem multiply_divide_exact : i.MultipliesDivides m src w b where
  mul := leaves_mul hread
  imul := leaves_imul hread
  imulInto _ _ := leaves_imulInto hread
  div_fails := fails_div hread
  div := leaves_div hread
  idiv_fails := fails_idiv hread
  idiv := leaves_idiv hread
  restores := leaves_restores hread

end

/-- `idiv byte [rdi]` and `idiv byte [rdi + 1]` with the smallest number in `ax`: a quotient by 1 is the
    smallest that fits, and there is none by -1. -/
theorem divide_smallest :
    let bus : Memory := (Memory.empty ⟨0x10000, 0x20000⟩).afterCalls
      [.map ⟨0x2000, 0x2002, .readWrite, 0, "bytes"⟩ (packed [0x01, 0xff])]
    let m : Machine Memory := ⟨(Cpu.initial.setGpr .rdi 0x2000).setGpr .rax 0xff80, bus⟩
    let byte : Int32 → Operand := fun k => .mem ⟨.register .rdi, none, .one, k, none, false⟩
    let byOne : Instruction := ⟨0x1000, .ofBytes [0xf6, 0x3f], .mulDiv .idiv (byte 0) .w8⟩
    let byMinusOne : Instruction := ⟨0x1000, .ofBytes [0xf6, 0x7f, 0x01], .mulDiv .idiv (byte 1) .w8⟩
    decode 0x1000 [0xf6, 0x3f] = .ok byOne ∧ decode 0x1000 [0xf6, 0x7f, 0x01] = .ok byMinusOne ∧
      (byOne.Leaves m fun t => Width.w8.toInt (t.readReg (.low .rax .w8)) = -128 ∧
        Width.w8.toInt (t.readReg (.high .rax)) = 0) ∧
      byMinusOne.FailsToDivide m := by
  intro bus m byte byOne byMinusOne
  have hone : byOne.MultipliesDivides m (byte 0) .w8 1 :=
    multiply_divide_exact (Location.outcome_read_of_ok (by decide +kernel))
  have hminusOne : byMinusOne.MultipliesDivides m (byte 1) .w8 0xff :=
    multiply_divide_exact (Location.outcome_read_of_ok (by decide +kernel))
  have hdividend : m.cpu.signedPair .w8 = -128 := by decide +kernel
  have hdivisor : Width.w8.toInt 1 = 1 := by decide
  -- by one the quotient is the least number of a byte, by minus one it would be one more than the greatest
  have hfits : ¬ (Width.w8.toInt 1 = 0 ∨
      Overflows Width.w8.bits ((m.cpu.signedPair .w8).tdiv (Width.w8.toInt 1))) := by
    rw [hdividend, hdivisor, Overflows]
    decide
  have hfails : Width.w8.toInt 0xff = 0 ∨
      Overflows Width.w8.bits ((m.cpu.signedPair .w8).tdiv (Width.w8.toInt 0xff)) := by
    rw [hdividend, Overflows]
    decide
  -- the remainder is less than one, so it is zero
  obtain ⟨t, hok, hsplit, hsmall, -⟩ := hone.idiv rfl hfits
  rw [hdividend, hdivisor] at hsplit
  rw [hdivisor, show |(1 : Int)| = 1 from rfl, Int.abs_lt_one_iff] at hsmall
  have hquotient : Width.w8.toInt (t.readReg (.low .rax .w8)) = -128 := by omega
  exact ⟨by decide +kernel, by decide +kernel, ⟨t, hok, hquotient, hsmall⟩,
    hminusOne.idiv_fails rfl hfails⟩

end Instruction

end Amd64
