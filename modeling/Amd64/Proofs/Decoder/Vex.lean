import Amd64.Decoder.Vex
import Amd64.Proofs.Decoder.Operands

namespace Amd64

/-!
# The VEX encoding yields well-formed operations
-/

open Reader Operation

theorem VexFields.ensures_readShort : readShort.Ensures Any :=
  ensures_byte.map fun _ _ => trivial

theorem VexFields.ensures_readLong : readLong.Ensures Any :=
  ensures_byte.bind fun _ _ => ensures_byte.map fun _ _ => trivial

namespace Prefixes

variable (p : Prefixes) (f : VexFields)

/-- A move has a vector register on one side. -/
theorem ensures_vexMove (op : UInt8) : (p.vexMove f op).Ensures WellFormed := by
  refine Ensures.ite (fun _ => ensures_invalid) fun _ => p.ensures_modRm.bind fun m _ => ?_
  refine Ensures.ite (fun _ => ensures_pure ?_) fun _ => ensures_pure ?_
  · exact Fits.wellFormed_pair ⟨vector_vecRegister _ _, vector_vecOperand _ _⟩ rfl (Or.inl rfl)
  · exact Fits.wellFormed_pair ⟨vector_vecOperand _ _, vector_vecRegister _ _⟩ rfl (Or.inr rfl)

/-- An operation on two sources has at most one operand in memory. -/
theorem ensures_vexBinary (op : VexOp) : (p.vexBinary f op).Ensures WellFormed := by
  refine p.ensures_modRm.map fun m _ => ⟨vector_vecOperand f.size m.rm, ?_⟩
  -- Only the last of the three operands may be in memory.
  show [vecRegister f.size m.reg, vecRegister f.size f.register, vecOperand f.size m.rm].countP
    Operand.isMem ≤ 1
  have hregister (code : Fin 16) : ¬(vecRegister f.size code).isMem = true := Bool.false_ne_true
  rw [List.countP_cons_of_neg (hregister _), List.countP_cons_of_neg (hregister _)]
  exact List.countP_le_length

/-- **VEX.** What is read behind the first byte of a VEX encoding is well formed. -/
theorem ensures_vex (first : UInt8) : (p.vex first).Ensures WellFormed := by
  refine Ensures.ite (fun _ => ensures_invalid) fun _ => ?_
  -- what follows the fields is the same for both forms of the encoding
  extract_lets body
  have hbody : ∀ f, (body f).Ensures WellFormed := by
    intro f
    refine Ensures.ite (fun _ => ensures_unsupported) fun _ => ensures_byte.bind fun op _ => ?_
    refine Ensures.ite (fun _ => ?_) fun _ => ?_
    · refine Ensures.ite (fun _ => ensures_unsupported) fun _ => ?_
      refine Ensures.ite (fun _ => ensures_invalid) fun _ => ensures_pure ?_
      exact Fits.wellFormed_nullary trivial rfl
    refine Ensures.ite (fun _ => ensures_vexMove _ f op) fun _ => ?_
    refine Ensures.ite (fun _ => ensures_vexBinary _ f .vpxor) fun _ => ?_
    exact Ensures.ite (fun _ => ensures_vexBinary _ f .vpaddq) fun _ => ensures_unsupported
  refine Ensures.ite (fun _ => ?_) fun _ => ?_
  · exact VexFields.ensures_readShort.bind fun f _ => hbody f
  · exact VexFields.ensures_readLong.bind fun f _ => hbody f

end Prefixes

end Amd64
