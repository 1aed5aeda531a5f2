import Amd64.Decoder.Basic
import Amd64.Proofs.Arithmetic.Shifts
import Amd64.Proofs.Machine.Binding
import Amd64.Proofs.Machine.Views
import Amd64.Proofs.Semantics.Precise.Basic
import Amd64.Semantics.Instruction

namespace Amd64

/-!
# Shifts and rotations on operands

* `Exec.outcome_update`      — an operand that can be read is replaced by what is made of it;
* `Instruction.shift_exact`  — a shift makes of it what arithmetic does.
-/

section
variable {σ : Type} [Bus σ]

namespace Exec

/-- An operand that can be read is replaced. -/
theorem outcome_update {dst : Location} {w : Width} {a : UInt64} {m m₁ : Machine σ}
    (hread : outcome (dst.read w) m = (.ok a, m₁)) (f : Flags → UInt64 → UInt64 × Flags) :
    outcome (update dst w f) m =
      outcome (do
        dst.write w (f m.cpu.flags a).1
        setFlags (f m.cpu.flags a).2) m₁ := by
  have hkept : m₁.cpu = m.cpu := by
    have hcpu := dst.keeps_cpu_read w m
    rwa [hread] at hcpu
  simp only [update, outcome_bind, hread, outcome_cpu, hkept]

/-- A count of which no bit counts is no other case. -/
theorem outcome_shift (op : ShiftOp) (dst : Location) (count : ShiftCount) (w : Width) (m : Machine σ) :
    outcome (shift op dst count w) m =
      outcome (update dst w fun f a => op.apply f w a (count.given m.cpu)) m := by
  rw [← rawCount_eq_given]
  simp only [shift, outcome_bind, outcome_cpu]
  rfl

end Exec

namespace Instruction

/-- **Shifts and rotations.** A shift whose operand has the value `a` writes what arithmetic makes of it by
    the count, which is an immediate value or the low byte of the count register, and sets the flags of that. -/
theorem shift_exact {i : Instruction} {op : ShiftOp} {dst : Operand} {count : ShiftCount} {w : Width}
    {a : UInt64} {m m₁ : Machine σ} (h : i.operation = .shift op dst count w)
    (hread : outcome ((dst.bind i.next).read w) m = (.ok a, m₁)) :
    outcome (i.execute i.binding) m =
        outcome (do
          (dst.bind i.next).write w (op.apply m.cpu.flags w a (count.given m.cpu)).1
          Exec.setFlags (op.apply m.cpu.flags w a (count.given m.cpu)).2
          return Outcome.next i.next) m₁ ∧
      op.Exact w := by
  have hdst : i.binding.get 0 = dst.bind i.next := get_binding (by rw [h]; rfl)
  have hwork : (i.execute i.binding : Exec σ Outcome) = (do
      Exec.shift op (dst.bind i.next) count w
      return .next i.next) := by
    simp only [execute, h, hdst]
  refine ⟨?_, op.exact w⟩
  rw [hwork, outcome_bind, Exec.outcome_shift, Exec.outcome_update hread, ← outcome_bind, bind_assoc]

/-- Counts of which not all bits count: `shl byte [rdi], 33` shifts by one, and `shr qword [rdi], cl` with `0x1e1` in
    the count register by 33. -/
theorem shift_exact_longCounts :
    let bus : Memory := (Memory.empty ⟨0x10000, 0x20000⟩).afterCalls
      [.map ⟨0x2000, 0x2008, .readWrite, 0, "word"⟩ (packed [0x81, 0, 0, 0, 1, 0, 0, 0x80])]
    let m : Machine Memory := ⟨(Cpu.initial.setGpr .rdi 0x2000).setGpr .rcx 0x1e1, bus⟩
    let place : Operand := .mem ⟨.register .rdi, none, .one, 0, none, false⟩
    let shl : Instruction := ⟨0x1000, .ofBytes [0xc0, 0x27, 0x21], .shift .shl place (.imm 0x21) .w8⟩
    let shr : Instruction := ⟨0x1000, .ofBytes [0x48, 0xd3, 0x2f], .shift .shr place .cl .w64⟩
    decode 0x1000 [0xc0, 0x27, 0x21] = .ok shl ∧ decode 0x1000 [0x48, 0xd3, 0x2f] = .ok shr ∧
      (∃ g, g.carry = true ∧ outcome (shl.execute shl.binding) m =
        outcome (do
          (place.bind shl.next).write .w8 0x02
          Exec.setFlags g
          return Outcome.next 0x1003) m) ∧
      ∃ g, g.carry = true ∧ outcome (shr.execute shr.binding) m =
        outcome (do
          (place.bind shr.next).write .w64 0x40000000
          Exec.setFlags g
          return Outcome.next 0x1003) m := by
  intro bus m place shl shr
  have hbyte : outcome ((place.bind shl.next).read .w8) m = (.ok 0x81, m) :=
    Location.outcome_read_of_ok (by decide +kernel)
  have hword : outcome ((place.bind shr.next).read .w64) m = (.ok 0x8000000100000081, m) :=
    Location.outcome_read_of_ok (by decide +kernel)
  obtain ⟨hshl, hleft⟩ := shift_exact (i := shl) (m := m) rfl hbyte
  obtain ⟨hshr, hright⟩ := shift_exact (i := shr) (m := m) rfl hword
  have hdoubled : (ShiftOp.shl.apply m.cpu.flags .w8 0x81 0x21).1 = 0x02 := by decide +kernel
  have hquotient : (ShiftOp.shr.apply m.cpu.flags .w64 0x8000000100000081 0xe1).1 = 0x40000000 := by decide +kernel
  have hcount : ShiftCount.cl.given m.cpu = 0xe1 := by decide +kernel
  refine ⟨by decide +kernel, by decide +kernel, ⟨(ShiftOp.shl.apply m.cpu.flags .w8 0x81 0x21).2, ?_, ?_⟩,
    (ShiftOp.shr.apply m.cpu.flags .w64 0x8000000100000081 0xe1).2, ?_, ?_⟩
  · -- the bit at the top goes out
    rw [hleft.carry _ _ _ (by decide), hdoubled]
    decide
  · rw [hshl, show (ShiftCount.imm 0x21).given m.cpu = 0x21 from rfl, hdoubled]
    rfl
  · -- the last bit that goes out is that at position 32
    rw [hright.carry _ _ _ (by decide), hquotient]
    decide
  · rw [hshr, hcount, hquotient]
    rfl

end Instruction

end

end Amd64
