import Amd64.Decoder.Operands
import Amd64.Proofs.Decoder.Reader
import Amd64.Proofs.Instruction.WellFormed

namespace Amd64

/-!
# Operands of decoded instructions

* `Prefixes.exists_reg`, `Prefixes.width_reg` — the registers that are decoded exist and have the width
  that is asked for;
* `Prefixes.source_operand`, `Prefixes.target_operand`, … — so operands fit where they are put;
* `Prefixes.ensures_modRm`                    — the operand byte and what belongs to it.
-/

open Reader

namespace Prefixes

variable (p : Prefixes) (code : Fin 16) (rm : RegMem) (w : Width)

/-- Only the numbers of the first four registers are taken for second bytes. -/
@[simp] theorem exists_reg : (p.reg code w).Exists := by
  unfold reg
  split
  · next h =>
    obtain ⟨_, _, hlow, hhigh⟩ := h
    -- the numbers 4 to 7 stand for `ah`, `ch`, `dh` and `bh`
    have hcode : code = 4 ∨ code = 5 ∨ code = 6 ∨ code = 7 := by omega
    rcases hcode with rfl | rfl | rfl | rfl
    · exact Or.inl rfl
    · exact Or.inr (Or.inl rfl)
    · exact Or.inr (Or.inr (Or.inl rfl))
    · exact Or.inr (Or.inr (Or.inr rfl))
  · trivial

/-- A register is seen at the width that is asked for. -/
@[simp] theorem width_reg : (p.reg code w).width = w := by
  unfold reg
  split
  · next h => exact h.1.symm
  · rfl

/-- A register of the width can be written. -/
@[simp] theorem target_reg : (Operand.reg (p.reg code w)).Target w :=
  ⟨p.exists_reg code w, p.width_reg code w⟩

@[simp] theorem target_regOperand : (p.regOperand code w).Target w :=
  p.target_reg code w

/-- Whatever the operand byte names can be written. -/
@[simp] theorem target_operand : (p.operand rm w).Target w := by
  cases rm with
  | reg code => exact p.target_reg code w
  | mem a => trivial

@[simp] theorem source_regOperand : (p.regOperand code w).Source w :=
  (p.target_regOperand code w).source

/-- Whatever the operand byte names can be read. -/
@[simp] theorem source_operand : (p.operand rm w).Source w :=
  (p.target_operand rm w).source

end Prefixes

@[simp] theorem vector_vecRegister (size : VecSize) (code : Fin 16) :
    (vecRegister size code).Vector := trivial

/-- Whatever the operand byte names is a vector operand. -/
@[simp] theorem vector_vecOperand (size : VecSize) (rm : RegMem) : (vecOperand size rm).Vector := by
  cases rm <;> trivial

/-- A vector register or a number in memory. -/
theorem isVec_or_target_vecOperand (size : VecSize) (rm : RegMem) (w : Width) :
    (vecOperand size rm).IsVec ∨ (vecOperand size rm).Target w := by
  cases rm with
  | reg code => exact Or.inl trivial
  | mem a => exact Or.inr trivial

/-! ### The operand byte -/

namespace Prefixes

variable (p : Prefixes) (mode : Nat) (low : Fin 8)

theorem ensures_scaledAddress : (p.scaledAddress mode).Ensures Any := by
  refine ensures_byte.bind fun sib _ => Ensures.ite (fun _ => ?_) fun _ => ?_
  · exact ensures_int32.map fun _ _ => trivial
  · exact ensures_pure trivial

theorem ensures_baseAddress : (p.baseAddress mode low).Ensures Any := by
  refine Ensures.ite (fun _ => p.ensures_scaledAddress mode) fun _ => ?_
  refine Ensures.ite (fun _ => ?_) fun _ => ?_
  · exact ensures_int32.map fun _ _ => trivial
  · exact ensures_pure trivial

theorem ensures_address : (p.address mode low).Ensures Any := by
  refine (p.ensures_baseAddress mode low).bind fun a _ => ?_
  split
  · exact ensures_int8.map fun _ _ => trivial
  · exact ensures_int32.map fun _ _ => trivial
  · exact ensures_pure trivial

theorem ensures_modRm : p.modRm.Ensures Any := by
  refine ensures_byte.bind fun byte _ => Ensures.ite (fun _ => ?_) fun _ => ?_
  · exact ensures_pure trivial
  · exact (p.ensures_address _ _).map fun _ _ => trivial

end Prefixes

end Amd64
