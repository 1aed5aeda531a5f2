import Amd64.Decoder.Primary
import Amd64.Proofs.Decoder.Operands

namespace Amd64

/-!
# The primary opcodes yield well-formed operations

One lemma for each row and each group, and `Prefixes.ensures_primary` for all of them.
-/

open Reader Operation

namespace Prefixes

variable (p : Prefixes) (op : UInt8)

/-- Arithmetic takes what a comparison takes: not both operands in memory. -/
theorem wellFormed_arithOrCmp (digit : Fin 8) {dst src : Operand} {w : Width} (hd : dst.Target w)
    (hs : src.Source w) (hmem : dst.isMem = false ∨ src.isMem = false) :
    (arithOrCmp digit dst src w).WellFormed := by
  unfold arithOrCmp
  split
  · exact Fits.wellFormed_pair ⟨hd, hs⟩ rfl hmem
  · exact Fits.wellFormed_pair ⟨hd.source, hs⟩ rfl hmem

/-- Each form of a row has at most one operand in memory. -/
theorem ensures_arithRow : (p.arithRow op).Ensures WellFormed := by
  unfold arithRow
  split
  · exact p.ensures_modRm.map fun m _ => wellFormed_arithOrCmp _ (by simp) (by simp) (Or.inr rfl)
  · exact p.ensures_modRm.map fun m _ => wellFormed_arithOrCmp _ (by simp) (by simp) (Or.inr rfl)
  · exact p.ensures_modRm.map fun m _ => wellFormed_arithOrCmp _ (by simp) (by simp) (Or.inl rfl)
  · exact p.ensures_modRm.map fun m _ => wellFormed_arithOrCmp _ (by simp) (by simp) (Or.inl rfl)
  · exact (ensures_immediate _).map fun imm _ =>
      wellFormed_arithOrCmp _ (p.target_regOperand _ _) trivial (Or.inr rfl)
  · exact (ensures_immediate _).map fun imm _ =>
      wellFormed_arithOrCmp _ (p.target_regOperand _ _) trivial (Or.inr rfl)
  · exact ensures_invalid

/-- An immediate value goes with any destination. -/
theorem ensures_arithGroup : (p.arithGroup op).Ensures WellFormed :=
  p.ensures_modRm.bind fun _ _ => (ensures_immediate _).map fun _ _ =>
    wellFormed_arithOrCmp _ (by simp) trivial (Or.inr rfl)

/-- One side is a register, the other one comes from the operand byte. -/
theorem ensures_transferRow : (p.transferRow op).Ensures WellFormed := by
  refine p.ensures_modRm.bind fun m _ => ?_
  -- test, exchange, store and load; one of the two operands is always a register
  refine Ensures.ite (fun _ => ensures_pure ?_) fun _ => ?_
  · exact Fits.wellFormed_pair ⟨p.source_operand _ _, p.source_regOperand _ _⟩ rfl (Or.inr rfl)
  refine Ensures.ite (fun _ => ensures_pure ?_) fun _ => ?_
  · exact Fits.wellFormed_pair ⟨p.target_operand _ _, p.target_regOperand _ _⟩ rfl (Or.inr rfl)
  refine Ensures.ite (fun _ => ensures_pure ?_) fun _ => ensures_pure ?_
  · exact Fits.wellFormed_pair ⟨p.target_operand _ _, p.source_regOperand _ _⟩ rfl (Or.inr rfl)
  · exact Fits.wellFormed_pair ⟨p.target_regOperand _ _, p.source_operand _ _⟩ rfl (Or.inl rfl)

/-- Exchanges with the accumulator have two registers of one width. -/
theorem wellFormed_exchangeRow : (p.exchangeRow op).WellFormed := by
  simp only [exchangeRow]
  split
  · exact Fits.wellFormed_nullary trivial rfl
  · exact Fits.wellFormed_pair ⟨p.target_regOperand _ _, p.target_regOperand _ _⟩ rfl (Or.inl rfl)

theorem ensures_movImmediateRow : (p.movImmediateRow op).Ensures WellFormed :=
  (ensures_number _).map fun _ _ =>
    Fits.wellFormed_pair ⟨p.target_regOperand _ _, trivial⟩ rfl (Or.inl rfl)

/-- Each of the three counts is allowed. -/
theorem ensures_shiftGroup : (p.shiftGroup op).Ensures WellFormed := by
  refine p.ensures_modRm.bind fun m _ => ?_
  have hshift : ∀ (shift : ShiftOp) (count : ShiftCount),
      (Operation.shift shift (p.operand m.rm (p.widthOf op)) count (p.widthOf op)).WellFormed :=
    fun _ _ => Fits.wellFormed (p.target_operand m.rm (p.widthOf op)) (Nat.le_refl 1)
  split
  · next shift _ =>
    -- the count is read, or it is one, or it is in `cl`
    dsimp only
    refine Ensures.ite (fun _ => ?_) fun _ => Ensures.ite (fun _ => ?_) fun _ => ?_
    · rw [map_eq_pure_bind, bind_assoc]
      exact ensures_byte.bind fun n _ => ensures_pure (hshift shift (.imm n))
    · exact ensures_pure (hshift shift (.imm 1))
    · exact ensures_pure (hshift shift .cl)
  · exact ensures_unsupported

/-- Every extension of these opcodes has operands of its width. -/
theorem ensures_unaryGroup : (p.unaryGroup op).Ensures WellFormed := by
  refine p.ensures_modRm.bind fun m _ => ?_
  have htest : ∀ imm, (Operation.test (p.operand m.rm (p.widthOf op)) (.imm imm)
      (p.widthOf op)).WellFormed := fun _ =>
    Fits.wellFormed_pair ⟨p.source_operand _ _, trivial⟩ rfl (Or.inr rfl)
  have hsource := p.source_operand m.rm (p.widthOf op)
  have htarget := p.target_operand m.rm (p.widthOf op)
  split
  · exact (ensures_immediate _).map fun imm _ => htest imm
  · exact (ensures_immediate _).map fun imm _ => htest imm
  · exact ensures_pure (Fits.wellFormed htarget (Nat.le_refl 1))
  · exact ensures_pure (Fits.wellFormed htarget (Nat.le_refl 1))
  · exact ensures_pure (Fits.wellFormed hsource (Nat.le_refl 1))
  · exact ensures_pure (Fits.wellFormed hsource (Nat.le_refl 1))
  · exact ensures_pure (Fits.wellFormed hsource (Nat.le_refl 1))
  · exact ensures_pure (Fits.wellFormed hsource (Nat.le_refl 1))

/-- A step of a byte has a byte as its operand. -/
theorem ensures_byteStepGroup : p.byteStepGroup.Ensures WellFormed := by
  refine p.ensures_modRm.bind fun m _ => ?_
  split
  · exact ensures_pure (Fits.wellFormed (p.target_operand m.rm .w8) (Nat.le_refl 1))
  · exact ensures_pure (Fits.wellFormed (p.target_operand m.rm .w8) (Nat.le_refl 1))
  · exact ensures_invalid

/-- Indirect branches and push take 64 bits, steps any width. -/
theorem ensures_wordGroup : p.wordGroup.Ensures WellFormed := by
  refine p.ensures_modRm.bind fun m _ => ?_
  split
  · exact ensures_pure (Fits.wellFormed (p.target_operand m.rm p.width) (Nat.le_refl 1))
  · exact ensures_pure (Fits.wellFormed (p.target_operand m.rm p.width) (Nat.le_refl 1))
  · exact ensures_pure (Fits.wellFormed (p.source_operand m.rm .w64) (Nat.le_refl 1))
  · exact ensures_pure (Fits.wellFormed (p.source_operand m.rm .w64) (Nat.le_refl 1))
  · exact ensures_pure (Fits.wellFormed (p.source_operand m.rm p.stackWidth) (Nat.le_refl 1))
  · exact ensures_unsupported
  · exact ensures_unsupported
  · exact ensures_invalid

/-- The source has 32 bits and the destination is wider or as wide. -/
theorem ensures_signExtendDword : p.signExtendDword.Ensures WellFormed :=
  p.ensures_modRm.map fun _ _ =>
    Fits.wellFormed_pair ⟨p.exists_reg _ _, p.source_operand _ _⟩ rfl (Or.inl rfl)

/-- The destination of a product is a register. -/
theorem ensures_imulImmediate : (p.imulImmediate op).Ensures WellFormed :=
  p.ensures_modRm.bind fun _ _ => (ensures_immediate _).map fun _ _ =>
    Fits.wellFormed_pair ⟨p.target_reg _ _, p.source_operand _ _⟩ rfl (Or.inl rfl)

/-- An address is computed for a memory operand only, never for a register. -/
theorem ensures_loadAddress : p.loadAddress.Ensures WellFormed := by
  refine p.ensures_modRm.bind fun m _ => ?_
  split
  · exact ensures_pure (Fits.wellFormed_pair (p.exists_reg _ _) rfl (Or.inl rfl))
  · exact ensures_invalid

/-- The destination of a pop has the width of the stack. -/
theorem ensures_popGroup : p.popGroup.Ensures WellFormed :=
  p.ensures_modRm.bind fun m _ => Ensures.ite
    (fun _ => ensures_pure (Fits.wellFormed (p.target_operand m.rm p.stackWidth) (Nat.le_refl 1)))
    fun _ => ensures_unsupported

/-- The immediate value goes to an operand of its width. -/
theorem ensures_movGroup : (p.movGroup op).Ensures WellFormed := by
  refine p.ensures_modRm.bind fun m _ => Ensures.ite (fun _ => ?_) fun _ => ensures_unsupported
  exact (ensures_immediate _).map fun _ _ =>
    Fits.wellFormed_pair ⟨p.target_operand _ _, trivial⟩ rfl (Or.inr rfl)

/-- **Primary opcodes.** What is read behind a one-byte opcode is well formed. -/
theorem ensures_primary : (p.primary op).Ensures WellFormed := by
  unfold primary
  -- one step for each line of the table of opcodes, in its order
  refine Ensures.ite (fun _ => p.ensures_arithRow op) fun _ => ?_
  refine Ensures.ite (fun _ => ?_) fun _ => ?_
  · exact ensures_pure (Fits.wellFormed (p.source_regOperand _ _) (Nat.le_refl 1))
  refine Ensures.ite (fun _ => ?_) fun _ => ?_
  · exact ensures_pure (Fits.wellFormed (p.target_regOperand _ _) (Nat.le_refl 1))
  refine Ensures.ite (fun _ => p.ensures_signExtendDword) fun _ => ?_
  refine Ensures.ite (fun _ => ?_) fun _ => ?_
  · exact (ensures_immediate _).map fun _ _ => Fits.wellFormed trivial (Nat.le_refl 1)
  refine Ensures.ite (fun _ => ?_) fun _ => ?_
  · exact (ensures_immediate _).map fun _ _ => Fits.wellFormed trivial (Nat.le_refl 1)
  refine Ensures.ite (fun _ => p.ensures_imulImmediate op) fun _ => ?_
  refine Ensures.ite (fun _ => ?_) fun _ => ?_
  · exact (ensures_immediate _).map fun _ _ => Fits.wellFormed_nullary trivial rfl
  refine Ensures.ite (fun _ => p.ensures_arithGroup op) fun _ => ?_
  refine Ensures.ite (fun _ => p.ensures_transferRow op) fun _ => ?_
  refine Ensures.ite (fun _ => p.ensures_loadAddress) fun _ => ?_
  refine Ensures.ite (fun _ => p.ensures_popGroup) fun _ => ?_
  refine Ensures.ite (fun _ => ensures_pure (p.wellFormed_exchangeRow op)) fun _ => ?_
  refine Ensures.ite (fun _ => ensures_pure (Fits.wellFormed_nullary trivial rfl)) fun _ => ?_
  refine Ensures.ite (fun _ => ensures_pure (Fits.wellFormed_nullary trivial rfl)) fun _ => ?_
  refine Ensures.ite (fun _ => ensures_pure (Fits.wellFormed_nullary trivial rfl)) fun _ => ?_
  refine Ensures.ite (fun _ => ?_) fun _ => ?_
  · exact (ensures_immediate _).map fun _ _ =>
      Fits.wellFormed_pair ⟨p.source_regOperand _ _, trivial⟩ rfl (Or.inl rfl)
  refine Ensures.ite (fun _ => p.ensures_movImmediateRow op) fun _ => ?_
  refine Ensures.ite (fun _ => p.ensures_shiftGroup op) fun _ => ?_
  refine Ensures.ite (fun _ => ?_) fun _ => ?_
  · exact (ensures_number 2).map fun _ _ => Fits.wellFormed_nullary trivial rfl
  refine Ensures.ite (fun _ => ensures_pure (Fits.wellFormed_nullary trivial rfl)) fun _ => ?_
  refine Ensures.ite (fun _ => p.ensures_movGroup op) fun _ => ?_
  refine Ensures.ite (fun _ => ?_) fun _ => ?_
  · exact (ensures_immediate _).map fun _ _ => Fits.wellFormed_nullary trivial rfl
  refine Ensures.ite (fun _ => ?_) fun _ => ?_
  · exact (ensures_immediate _).map fun _ _ => Fits.wellFormed_nullary trivial rfl
  refine Ensures.ite (fun _ => ?_) fun _ => ?_
  · exact (ensures_immediate _).map fun _ _ => Fits.wellFormed_nullary trivial rfl
  refine Ensures.ite (fun _ => ensures_pure (Fits.wellFormed_nullary trivial rfl)) fun _ => ?_
  refine Ensures.ite (fun _ => ensures_pure (Fits.wellFormed_nullary trivial rfl)) fun _ => ?_
  refine Ensures.ite (fun _ => p.ensures_unaryGroup op) fun _ => ?_
  refine Ensures.ite (fun _ => ensures_pure (Fits.wellFormed_nullary trivial rfl)) fun _ => ?_
  refine Ensures.ite (fun _ => ensures_pure (Fits.wellFormed_nullary trivial rfl)) fun _ => ?_
  refine Ensures.ite (fun _ => ensures_pure (Fits.wellFormed_nullary trivial rfl)) fun _ => ?_
  refine Ensures.ite (fun _ => ensures_pure (Fits.wellFormed_nullary trivial rfl)) fun _ => ?_
  refine Ensures.ite (fun _ => p.ensures_byteStepGroup) fun _ => ?_
  refine Ensures.ite (fun _ => p.ensures_wordGroup) fun _ => ?_
  exact Ensures.ite (fun _ => ensures_invalid) fun _ => ensures_unsupported

end Prefixes

end Amd64
