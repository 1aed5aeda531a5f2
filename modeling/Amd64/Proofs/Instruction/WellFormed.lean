import Amd64.Instruction.Operation

namespace Amd64

/-!
# Operands that fit

* `Operand.Source`, `Operand.Target` — operands that an integer of a width is read from and written to;
* `Operand.IsVec`, `Operand.Vector`  — operands of vector operations;
* `SseOp.Fits`, `Operation.Fits`     — every operand is one that the operation can work with there;
* `Operation.WellFormed`             — they fit, and one of them at most is in memory.
-/

/-- Only the first four registers have a second byte. -/
def Reg.Exists : Reg → Prop
  | .low _ _ => True
  | .high g => g = .rax ∨ g = .rcx ∨ g = .rdx ∨ g = .rbx

namespace Operand

/-- A register among the operands has to exist. -/
def Exists : Operand → Prop
  | reg r => r.Exists
  | _ => True

/-- An integer of width `w` can be read here. -/
def Source (w : Width) : Operand → Prop
  | reg r => r.Exists ∧ r.width = w
  | mem _ => True
  | imm _ => True
  | vec _ => False

/-- An integer of width `w` can be read and written here. -/
def Target (w : Width) : Operand → Prop
  | reg r => r.Exists ∧ r.width = w
  | mem _ => True
  | imm _ => False
  | vec _ => False

/-- A vector register. -/
def IsVec : Operand → Prop
  | vec _ => True
  | _ => False

/-- A vector register or a vector in memory. -/
def Vector : Operand → Prop
  | vec _ => True
  | mem _ => True
  | _ => False

/-- An immediate value. -/
def IsImm : Operand → Prop
  | imm _ => True
  | _ => False

variable {o : Operand} {w : Width}

theorem Target.source (h : o.Target w) : o.Source w := by
  cases o with
  | reg r => exact h
  | vec v => exact h
  | mem a => trivial
  | imm v => trivial

theorem Source.exists (h : o.Source w) : o.Exists := by
  cases o with
  | reg r => exact h.1
  | _ => trivial

theorem Vector.exists (h : o.Vector) : o.Exists := by
  cases o with
  | reg r => exact absurd h id
  | _ => trivial

theorem IsImm.exists (h : o.IsImm) : o.Exists := by
  cases o with
  | reg r => exact absurd h id
  | _ => trivial

theorem IsVec.eq_vec (h : o.IsVec) : ∃ v, o = .vec v := by
  cases o with
  | vec v => exact ⟨v, rfl⟩
  | _ => exact absurd h id

theorem IsImm.eq_imm (h : o.IsImm) : ∃ v, o = .imm v := by
  cases o with
  | imm v => exact ⟨v, rfl⟩
  | _ => exact absurd h id

/-- A vector operand is a register or in memory. -/
theorem Vector.eq_vec_or_mem (h : o.Vector) : (∃ v, o = .vec v) ∨ ∃ a, o = .mem a := by
  cases o with
  | vec v => exact Or.inl ⟨v, rfl⟩
  | mem a => exact Or.inr ⟨a, rfl⟩
  | _ => exact absurd h id

theorem IsVec.vector (h : o.IsVec) : o.Vector := by
  obtain ⟨v, rfl⟩ := h.eq_vec
  trivial

end Operand

/-- Operands of a move of an integer of width `w` that a vector register takes part in. -/
def Operand.MovesInteger (w : Width) (dst src : Operand) : Prop :=
  (dst.IsVec ∧ (src.IsVec ∨ src.Source w)) ∨ (dst.Target w ∧ src.IsVec)

/-- The operands are of the kinds that the vector operation works on.  General-purpose registers have the
    width of the operation; only a collection of sign bits has a register of any width. -/
def SseOp.Fits (dst src : Operand) : SseOp → Prop
  | .movePacked _ => dst.Vector ∧ src.Vector
  | .moveScalar _ => dst.Vector ∧ src.Vector
  | .movd => Operand.MovesInteger .w32 dst src
  | .movq => Operand.MovesInteger .w64 dst src
  | .logic _ => dst.IsVec ∧ src.Vector
  | .lanes _ _ => dst.IsVec ∧ src.Vector
  | .moveMask => (∃ r : Reg, dst = .reg r ∧ r.Exists) ∧ src.IsVec
  | .shiftLanes _ _ => dst.IsVec ∧ (src.Vector ∨ src.IsImm)
  | .shiftBytes _ => dst.IsVec ∧ src.IsImm
  | .float _ _ => dst.IsVec ∧ src.Vector
  | .compare _ _ => dst.IsVec ∧ src.Vector
  | .ofInteger _ w => dst.IsVec ∧ src.Source w
  | .toInteger _ w => dst.Target w ∧ src.Vector
  | .widen => dst.IsVec ∧ src.Vector
  | .narrow => dst.IsVec ∧ src.Vector

/-- Operands that fit exist. -/
theorem SseOp.Fits.exists {op : SseOp} {dst src : Operand} (h : op.Fits dst src) :
    dst.Exists ∧ src.Exists := by
  cases op with
  | movePacked | moveScalar => exact ⟨h.1.exists, h.2.exists⟩
  | movd | movq =>
    rcases h with ⟨hd, hs | hs⟩ | ⟨hd, hs⟩
    · exact ⟨hd.vector.exists, hs.vector.exists⟩
    · exact ⟨hd.vector.exists, hs.exists⟩
    · exact ⟨hd.source.exists, hs.vector.exists⟩
  | moveMask =>
    obtain ⟨⟨r, rfl, hr⟩, hs⟩ := h
    exact ⟨hr, hs.vector.exists⟩
  | shiftLanes =>
    obtain ⟨hd, hs | hs⟩ := h
    · exact ⟨hd.vector.exists, hs.exists⟩
    · exact ⟨hd.vector.exists, hs.exists⟩
  | toInteger => exact ⟨h.1.source.exists, h.2.exists⟩
  | _ => exact ⟨h.1.vector.exists, h.2.exists⟩

namespace Operation

/-- The operands are of the kinds that the operation works on, and general-purpose registers have the
    width at which it reads or writes them.  A routine is not an operation that code contains. -/
def Fits : Operation → Prop
  | arith _ dst src w => dst.Target w ∧ src.Source w
  | cmp lhs rhs w => lhs.Source w ∧ rhs.Source w
  | test lhs rhs w => lhs.Source w ∧ rhs.Source w
  | inc dst w => dst.Target w
  | dec dst w => dst.Target w
  | neg dst w => dst.Target w
  | not dst w => dst.Target w
  | mulDiv _ src w => src.Source w
  | imul dst src _ w => (Operand.reg dst).Target w ∧ src.Source w
  | shift _ dst _ w => dst.Target w
  | mov dst src w => dst.Target w ∧ src.Source w
  | movzx dst src w => dst.Exists ∧ src.Source w
  | movsx dst src w => dst.Exists ∧ src.Source w
  | lea dst _ => dst.Exists
  | xchg a b w => a.Target w ∧ b.Target w
  | push src w => src.Source w
  | pop dst w => dst.Target w
  | jmpIndirect target => target.Source .w64
  | callIndirect target => target.Source .w64
  | setcc _ dst => dst.Target .w8
  | cmovcc _ dst src w => (Operand.reg dst).Target w ∧ src.Source w
  | sse op dst src => op.Fits dst src
  | vexMove _ dst src => dst.Vector ∧ src.Vector
  | vexBinary _ _ _ rhs => rhs.Vector
  | intrinsic _ => False
  | _ => True

/-- The operands fit, and one of them at most is in memory. -/
structure WellFormed (o : Operation) : Prop where
  fits : o.Fits
  countP_isMem_le : o.operands.countP Operand.isMem ≤ 1

variable {o : Operation}

/-- One operand is no more than one in memory. -/
theorem Fits.wellFormed (h : o.Fits) (hlen : o.operands.length ≤ 1) : o.WellFormed :=
  ⟨h, Nat.le_trans List.countP_le_length hlen⟩

/-- Without operands there is nothing to check but the form. -/
theorem Fits.wellFormed_nullary (h : o.Fits) (hops : o.operands = []) : o.WellFormed :=
  h.wellFormed (by rw [hops]; decide)

/-- Of two operands one must not be in memory. -/
theorem countP_isMem_pair {a b : Operand} :
    [a, b].countP Operand.isMem ≤ 1 ↔ a.isMem = false ∨ b.isMem = false := by
  cases ha : a.isMem <;> cases hb : b.isMem <;> simp [ha, hb]

/-- Of two operands one has to be a register or a number. -/
theorem Fits.wellFormed_pair (h : o.Fits) {a b : Operand} (hops : o.operands = [a, b])
    (hmem : a.isMem = false ∨ b.isMem = false) : o.WellFormed :=
  ⟨h, hops ▸ countP_isMem_pair.mpr hmem⟩

/-- The target of a branch is no operand. -/
theorem WellFormed.relocate (h : o.WellFormed) (origin : UInt64) : (o.relocate origin).WellFormed := by
  unfold Operation.relocate
  split
  · exact ⟨h.fits, h.countP_isMem_le⟩
  · exact ⟨h.fits, h.countP_isMem_le⟩
  · exact ⟨h.fits, h.countP_isMem_le⟩
  · exact h

/-- No operation has more than three operands. -/
theorem length_operands_le (o : Operation) : o.operands.length ≤ 3 := by
  cases o <;> simp [operands]

/-- Registers among operands that fit exist. -/
theorem Fits.exists (h : o.Fits) : ∀ x ∈ o.operands, x.Exists := by
  have hpair : ∀ {a b : Operand}, a.Exists ∧ b.Exists → ∀ x ∈ [a, b], x.Exists := by
    intro a b hab
    simpa using hab
  have hone : ∀ {a : Operand}, a.Exists → ∀ x ∈ [a], x.Exists := by
    intro a ha
    simpa using ha
  cases o with
  | arith | imul | mov | cmovcc => exact hpair ⟨h.1.source.exists, h.2.exists⟩
  | cmp | test => exact hpair ⟨h.1.exists, h.2.exists⟩
  | xchg => exact hpair ⟨h.1.source.exists, h.2.source.exists⟩
  | inc | dec | neg | not | shift | pop | setcc => exact hone h.source.exists
  | mulDiv | push | jmpIndirect | callIndirect => exact hone h.exists
  | movzx | movsx => exact hpair ⟨h.1, h.2.exists⟩
  | lea => exact hpair ⟨h, trivial⟩
  | sse => exact hpair (SseOp.Fits.exists h)
  | vexMove => exact hpair ⟨h.1.exists, h.2.exists⟩
  | vexBinary => simpa [operands, Operand.Exists] using h.exists
  | _ => simp [operands]

end Operation

end Amd64
