import Amd64.Decoder.Secondary
import Amd64.Proofs.Decoder.Operands

namespace Amd64

/-!
# The opcodes behind `0x0f` yield well-formed operations

* `SseOp.Loads`, `SseOp.Stores` — vector operations from an operand to a register and back;
* `Prefixes.ensures_sseLoad`, `Prefixes.ensures_sseStore` — instructions with such operations;
* `Prefixes.ensures_secondary` — all opcodes behind `0x0f`.
-/

open Reader Operation

/-- The operation has a vector register as destination and any vector operand as source. -/
def SseOp.Loads (op : SseOp) : Prop :=
  ∀ code rm, op.Fits (vecRegister .xmm code) (vecOperand .xmm rm)

/-- The operation has any vector operand as destination and a vector register as source. -/
def SseOp.Stores (op : SseOp) : Prop :=
  ∀ rm code, op.Fits (vecOperand .xmm rm) (vecRegister .xmm code)

namespace Prefixes

variable (p : Prefixes) (op : UInt8)

/-! ### Loads and stores -/

/-- An operation that loads is read with operands that fit it. -/
theorem ensures_sseLoad {sseOp : SseOp} (h : sseOp.Loads) : (p.sseLoad sseOp).Ensures WellFormed :=
  p.ensures_modRm.map fun m _ => Fits.wellFormed_pair (h m.reg m.rm) rfl (Or.inl rfl)

/-- An operation that stores is read with operands that fit it. -/
theorem ensures_sseStore {sseOp : SseOp} (h : sseOp.Stores) : (p.sseStore sseOp).Ensures WellFormed :=
  p.ensures_modRm.map fun m _ => Fits.wellFormed_pair (h m.rm m.reg) rfl (Or.inr rfl)

/-- The mandatory prefix only decides whether the operation is read. -/
theorem ensures_sse66 {sseOp : SseOp} (h : sseOp.Loads) : (p.sse66 sseOp).Ensures WellFormed :=
  Ensures.ite (fun _ => p.ensures_sseLoad h) fun _ => ensures_unsupported

/-- Each unaligned move has a form that loads. -/
theorem loads_unalignedMove : p.unalignedMove.Loads := by
  intro code rm
  unfold unalignedMove
  split <;> exact ⟨vector_vecRegister _ _, vector_vecOperand _ _⟩

/-- Each unaligned move has a form that stores. -/
theorem stores_unalignedMove : p.unalignedMove.Stores := by
  intro rm code
  unfold unalignedMove
  split <;> exact ⟨vector_vecOperand _ _, vector_vecRegister _ _⟩

/-- An aligned move moves a whole register. -/
theorem exists_alignedMove? {sseOp : SseOp} (h : p.alignedMove? = some sseOp) :
    ∃ form, sseOp = .movePacked form := by
  unfold alignedMove? at h
  split at h
  · exact ⟨_, (Option.some.inj h).symm⟩
  · exact ⟨_, (Option.some.inj h).symm⟩
  · simp at h

/-- A move of an integer vector moves a whole register. -/
theorem exists_integerMove? {sseOp : SseOp} (h : p.integerMove? = some sseOp) :
    ∃ form, sseOp = .movePacked form := by
  unfold integerMove? at h
  split at h
  · exact ⟨_, (Option.some.inj h).symm⟩
  · exact ⟨_, (Option.some.inj h).symm⟩
  · simp at h

theorem loads_movePacked (form : PackedMove) : (SseOp.movePacked form).Loads :=
  fun _ rm => ⟨trivial, vector_vecOperand _ rm⟩

theorem stores_movePacked (form : PackedMove) : (SseOp.movePacked form).Stores :=
  fun rm _ => ⟨vector_vecOperand _ rm, trivial⟩

theorem loads_movq : SseOp.movq.Loads := fun _ rm =>
  Or.inl ⟨trivial, (isVec_or_target_vecOperand .xmm rm .w64).imp_right Operand.Target.source⟩

theorem stores_movq : SseOp.movq.Stores := fun rm _ =>
  (isVec_or_target_vecOperand .xmm rm .w64).elim (fun hvec => Or.inl ⟨hvec, Or.inl trivial⟩)
    fun htarget => Or.inr ⟨htarget, trivial⟩

/-- All operations on integer vectors load their source. -/
theorem loads_integerVectorOp? {sseOp : SseOp} (h : integerVectorOp? op = some sseOp) :
    sseOp.Loads := by
  intro code rm
  have hvec := vector_vecOperand .xmm rm
  unfold integerVectorOp? at h
  split at h
  all_goals first
    | (obtain rfl := Option.some.inj h
       first | exact ⟨trivial, hvec⟩ | exact ⟨trivial, Or.inl hvec⟩)
    | exact nomatch h

/-! ### Moves between register files -/

/-- A conversion from an integer has a general-purpose source. -/
theorem ensures_convertOfInteger : p.convertOfInteger.Ensures WellFormed := by
  unfold convertOfInteger
  split
  · exact p.ensures_modRm.map fun m _ =>
      Fits.wellFormed_pair ⟨trivial, p.source_operand _ _⟩ rfl (Or.inl rfl)
  · exact ensures_unsupported

/-- A conversion to an integer has a general-purpose destination. -/
theorem ensures_convertToInteger : p.convertToInteger.Ensures WellFormed := by
  unfold convertToInteger
  split
  · exact p.ensures_modRm.map fun m _ =>
      Fits.wellFormed_pair ⟨p.target_regOperand _ _, vector_vecOperand _ _⟩ rfl (Or.inl rfl)
  · exact ensures_unsupported

/-- A conversion between precisions has a vector destination. -/
theorem ensures_convertPrecision : p.convertPrecision.Ensures WellFormed := by
  unfold convertPrecision
  split
  · exact p.ensures_sseLoad fun _ rm => ⟨trivial, vector_vecOperand _ rm⟩
  · exact p.ensures_sseLoad fun _ rm => ⟨trivial, vector_vecOperand _ rm⟩
  · exact ensures_unsupported

/-- The general-purpose operand of a move has the width of the move. -/
theorem fits_gprMove {dst src : Operand} (h : Operand.MovesInteger p.gprWidth dst src) :
    p.gprMove.Fits dst src := by
  unfold gprMove
  split
  · next hw => rwa [hw] at h
  · next hw =>
    have hw32 : p.gprWidth = .w32 := by
      unfold gprWidth at hw ⊢
      split
      · next hext => simp [hext] at hw
      · rfl
    rwa [hw32] at h

/-- Each of the forms of this opcode has operands that fit it. -/
theorem ensures_moveOut : p.moveOut.Ensures WellFormed := by
  unfold moveOut
  split
  · exact p.ensures_modRm.map fun m _ =>
      Fits.wellFormed_pair (p.fits_gprMove (Or.inr ⟨p.target_operand _ _, trivial⟩)) rfl (Or.inr rfl)
  · exact p.ensures_sseLoad loads_movq
  · exact ensures_unsupported

/-- A move into a vector register has a general-purpose source. -/
theorem ensures_moveIn : p.moveIn.Ensures WellFormed := by
  refine Ensures.ite (fun _ => ?_) fun _ => ensures_unsupported
  exact p.ensures_modRm.map fun m _ =>
    Fits.wellFormed_pair (p.fits_gprMove (Or.inl ⟨trivial, Or.inr (p.source_operand _ _)⟩)) rfl
      (Or.inl rfl)

/-- A shift by an immediate count fits a register and a number. -/
theorem fits_immediateShift? {digit : Fin 8} {sseOp : SseOp}
    (h : immediateShift? op digit = some sseOp) (code : Fin 16) (count : UInt64) :
    sseOp.Fits (vecRegister .xmm code) (.imm count) := by
  unfold immediateShift? at h
  split at h
  all_goals first
    | (obtain rfl := Option.some.inj h
       first | exact ⟨trivial, trivial⟩ | exact ⟨trivial, Or.inr trivial⟩)
    | exact nomatch h

/-- What the extension selects is a shift of a register, or it is refused. -/
theorem ensures_vectorShiftGroup : (p.vectorShiftGroup op).Ensures WellFormed := by
  refine Ensures.ite (fun _ => ensures_unsupported) fun _ => p.ensures_modRm.bind fun m _ => ?_
  split
  · exact ensures_invalid
  · split
    · next shift hshift =>
      exact ensures_byte.map fun count _ =>
        Fits.wellFormed_pair (fits_immediateShift? op hshift _ _) rfl (Or.inl rfl)
    · exact ensures_invalid

/-- Sign bits go from a vector register to a general-purpose register. -/
theorem ensures_moveMask : p.moveMask.Ensures WellFormed := by
  refine Ensures.ite (fun _ => ensures_unsupported) fun _ => p.ensures_modRm.bind fun m _ => ?_
  split
  · exact ensures_invalid
  · exact ensures_pure
      (Fits.wellFormed_pair ⟨⟨_, rfl, p.exists_reg _ _⟩, trivial⟩ rfl (Or.inl rfl))

/-! ### Integer instructions -/

/-- A conditional move has a source of its own width. -/
theorem ensures_conditionalMove : (p.conditionalMove op).Ensures WellFormed :=
  p.ensures_modRm.map fun _ _ =>
    Fits.wellFormed_pair ⟨p.target_reg _ _, p.source_operand _ _⟩ rfl (Or.inl rfl)

/-- An extension has a source that is narrower than its destination. -/
theorem ensures_extendingMove : (p.extendingMove op).Ensures WellFormed := by
  refine p.ensures_modRm.bind fun m _ => ?_
  refine Ensures.ite (fun _ => ensures_pure ?_) fun _ => ensures_pure ?_
  · exact Fits.wellFormed_pair ⟨p.exists_reg _ _, p.source_operand _ _⟩ rfl (Or.inl rfl)
  · exact Fits.wellFormed_pair ⟨p.exists_reg _ _, p.source_operand _ _⟩ rfl (Or.inl rfl)

/-- **Secondary opcodes.** What is read behind `0x0f` and one more byte is well formed. -/
theorem ensures_secondary : (p.secondary op).Ensures WellFormed := by
  unfold secondary
  -- one step for each line of the table of opcodes, in its order
  refine Ensures.ite (fun _ => ensures_pure (Fits.wellFormed_nullary trivial rfl)) fun _ => ?_
  refine Ensures.ite (fun _ => ensures_pure (Fits.wellFormed_nullary trivial rfl)) fun _ => ?_
  refine Ensures.ite (fun _ => p.ensures_sseLoad p.loads_unalignedMove) fun _ => ?_
  refine Ensures.ite (fun _ => p.ensures_sseStore p.stores_unalignedMove) fun _ => ?_
  refine Ensures.ite (fun _ => ?_) fun _ => ?_
  · exact p.ensures_modRm.map fun _ _ => Fits.wellFormed_nullary trivial rfl
  refine Ensures.ite (fun _ => ?_) fun _ => ?_
  · split
    · next hmove =>
      obtain ⟨form, rfl⟩ := p.exists_alignedMove? hmove
      exact p.ensures_sseLoad (loads_movePacked form)
    · exact ensures_invalid
  refine Ensures.ite (fun _ => ?_) fun _ => ?_
  · split
    · next hmove =>
      obtain ⟨form, rfl⟩ := p.exists_alignedMove? hmove
      exact p.ensures_sseStore (stores_movePacked form)
    · exact ensures_invalid
  refine Ensures.ite (fun _ => p.ensures_convertOfInteger) fun _ => ?_
  refine Ensures.ite (fun _ => p.ensures_convertToInteger) fun _ => ?_
  refine Ensures.ite (fun _ => ?_) fun _ => ?_
  · split
    · exact p.ensures_sseLoad fun _ rm => ⟨trivial, vector_vecOperand _ rm⟩
    · exact ensures_invalid
  refine Ensures.ite (fun _ => p.ensures_conditionalMove op) fun _ => ?_
  refine Ensures.ite (fun _ => ?_) fun _ => ?_
  · split
    · exact p.ensures_sseLoad fun _ rm => ⟨trivial, vector_vecOperand _ rm⟩
    · exact ensures_unsupported
  refine Ensures.ite (fun _ => ?_) fun _ => ?_
  · split
    · exact p.ensures_sseLoad fun _ rm => ⟨trivial, vector_vecOperand _ rm⟩
    · exact ensures_invalid
  refine Ensures.ite (fun _ => p.ensures_convertPrecision) fun _ => ?_
  refine Ensures.ite (fun _ => p.ensures_moveIn) fun _ => ?_
  refine Ensures.ite (fun _ => ?_) fun _ => ?_
  · split
    · next hmove =>
      obtain ⟨form, rfl⟩ := p.exists_integerMove? hmove
      exact p.ensures_sseLoad (loads_movePacked form)
    · exact ensures_unsupported
  refine Ensures.ite (fun _ => p.ensures_vectorShiftGroup op) fun _ => ?_
  refine Ensures.ite (fun _ => p.ensures_moveOut) fun _ => ?_
  refine Ensures.ite (fun _ => ?_) fun _ => ?_
  · split
    · next hmove =>
      obtain ⟨form, rfl⟩ := p.exists_integerMove? hmove
      exact p.ensures_sseStore (stores_movePacked form)
    · exact ensures_unsupported
  refine Ensures.ite (fun _ => ?_) fun _ => ?_
  · exact (ensures_immediate _).map fun _ _ => Fits.wellFormed_nullary trivial rfl
  refine Ensures.ite (fun _ => ?_) fun _ => ?_
  · exact p.ensures_modRm.map fun m _ =>
      Fits.wellFormed (p.target_operand m.rm .w8) (Nat.le_refl 1)
  refine Ensures.ite (fun _ => ?_) fun _ => ?_
  · exact p.ensures_modRm.map fun _ _ =>
      Fits.wellFormed_pair ⟨p.target_reg _ _, p.source_operand _ _⟩ rfl (Or.inl rfl)
  refine Ensures.ite (fun _ => p.ensures_extendingMove op) fun _ => ?_
  refine Ensures.ite (fun _ => ?_) fun _ => ?_
  · exact Ensures.ite (fun _ => p.ensures_sseStore stores_movq) fun _ => ensures_unsupported
  refine Ensures.ite (fun _ => p.ensures_moveMask) fun _ => ?_
  refine Ensures.ite (fun _ => ensures_invalid) fun _ => ?_
  split
  · next hop => exact p.ensures_sse66 (loads_integerVectorOp? op hop)
  · exact ensures_unsupported

end Prefixes

end Amd64
