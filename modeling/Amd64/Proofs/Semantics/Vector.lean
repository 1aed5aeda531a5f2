import Amd64.Proofs.Semantics.Faults
import Amd64.Semantics.Sse
import Amd64.Semantics.Vex

namespace Amd64

/-!
# Faults of vector instructions

* `Exec.faultsIn_sse`       — with operands that fit, all faults are faults of memory;
* `Exec.faultsIn_vexMove`, `Exec.faultsIn_vexBinary` — the same in the VEX encoding.
-/

namespace Exec

open Fault

variable {σ : Type} {dst src : Operand} {w : Width} (next : UInt64)

/-! ### Operands -/

/-- A vector operand has an index. -/
theorem faultsIn_vecIndex (h : dst.IsVec) :
    (vecIndex (dst.bind next) : Exec σ (Fin 16)).FaultsIn IsMemory := by
  obtain ⟨v, rfl⟩ := h.eq_vec
  exact faultsIn_pure v.index

/-- The low word of a register is read without faults. -/
theorem faultsIn_lowWord (i : Fin 16) : (lowWord i : Exec σ UInt64).FaultsIn IsMemory :=
  (faultsIn_viewVec i VectorReg.xmm).bind fun _ => faultsIn_pure _

variable [Bus σ]

/-- A number is read from a register or from memory. -/
theorem faultsIn_readScalar (p : Precision) (h : src.Vector) :
    (readScalar p (src.bind next) : Exec σ UInt64).FaultsIn IsMemory := by
  obtain ⟨v, rfl⟩ | ⟨a, rfl⟩ := h.eq_vec_or_mem
  · exact faultsIn_viewVec v.index (VectorReg.scalar p)
  · exact faultsIn_cpu.bind fun _ => faultsIn_access _

/-- A wide value is read from a register or from memory. -/
theorem faultsIn_readWide (size : VecSize) (h : src.Vector) :
    (readWide (src.bind next) size : Exec σ WideValue).FaultsIn IsMemory := by
  obtain ⟨v, rfl⟩ | ⟨a, rfl⟩ := h.eq_vec_or_mem
  · cases size with
    | xmm => exact (faultsIn_viewVec v.index VectorReg.xmm).bind fun _ => faultsIn_pure _
    | ymm => exact (faultsIn_viewVec v.index VectorReg.ymm).bind fun _ => faultsIn_pure _
  · cases size with
    | xmm => exact faultsIn_cpu.bind fun _ => (faultsIn_access _).bind fun _ => faultsIn_pure _
    | ymm =>
      exact faultsIn_cpu.bind fun _ => (faultsIn_access _).bind fun _ =>
        (faultsIn_access _).bind fun _ => faultsIn_pure _

/-- A wide value is written to a register or to memory. -/
theorem faultsIn_writeWide (size : VecSize) (h : dst.Vector) (x : WideValue) :
    (writeWide (dst.bind next) size x : Exec σ Unit).FaultsIn IsMemory := by
  obtain ⟨v, rfl⟩ | ⟨a, rfl⟩ := h.eq_vec_or_mem
  · cases size with
    | xmm => exact faultsIn_modifyCpu _
    | ymm => exact faultsIn_modifyCpu _
  · cases size with
    | xmm => exact faultsIn_cpu.bind fun _ => faultsIn_access _
    | ymm => exact faultsIn_cpu.bind fun _ => (faultsIn_access _).bind fun _ => faultsIn_access _

/-! ### Legacy encoding -/

/-- Sixteen bytes are moved. -/
theorem faultsIn_movePacked (hd : dst.Vector) (hs : src.Vector) :
    (do (dst.bind next).writeXmm (← (src.bind next).readXmm) : Exec σ Unit).FaultsIn IsMemory :=
  (hs.faultsIn_readXmm next).bind fun _ => hd.faultsIn_writeXmm next _

/-- An operation on two vectors reads both. -/
theorem faultsIn_binary (f : BitVec 128 → BitVec 128 → BitVec 128) (hd : dst.IsVec)
    (hs : src.Vector) :
    (binary f (dst.bind next) (src.bind next) : Exec σ Unit).FaultsIn IsMemory :=
  (hs.faultsIn_readXmm next).bind fun _ => (hd.vector.faultsIn_readXmm next).bind fun _ =>
    hd.vector.faultsIn_writeXmm next _

/-- Of the two operands one has to be a register. -/
theorem faultsIn_moveScalar (p : Precision) (hd : dst.Vector) (hs : src.Vector)
    (hmem : dst.isMem = false ∨ src.isMem = false) :
    (moveScalar p (dst.bind next) (src.bind next) : Exec σ Unit).FaultsIn IsMemory := by
  obtain ⟨d, rfl⟩ | ⟨a, rfl⟩ := hd.eq_vec_or_mem
  · obtain ⟨s, rfl⟩ | ⟨b, rfl⟩ := hs.eq_vec_or_mem
    · exact (faultsIn_viewVec s.index (VectorReg.scalar p)).bind fun _ => faultsIn_modifyCpu _
    · exact faultsIn_cpu.bind fun _ => (faultsIn_access _).bind fun _ => faultsIn_modifyCpu _
  · obtain ⟨s, rfl⟩ | ⟨b, rfl⟩ := hs.eq_vec_or_mem
    · exact (faultsIn_viewVec s.index (VectorReg.scalar p)).bind fun _ =>
        faultsIn_cpu.bind fun _ => faultsIn_access _
    · exact absurd hmem (by simp [Operand.isMem])

/-- The operand that is not a vector register is a register or in memory. -/
theorem faultsIn_moveInteger (h : Operand.MovesInteger w dst src) :
    (moveInteger w (dst.bind next) (src.bind next) : Exec σ Unit).FaultsIn IsMemory := by
  rcases h with ⟨hd, hs⟩ | ⟨hd, hs⟩
  · obtain ⟨d, rfl⟩ := hd.eq_vec
    -- between vector registers the low word is moved, else an integer is loaded
    cases src with
    | vec s => exact (faultsIn_lowWord s.index).bind fun _ => faultsIn_modifyCpu _
    | reg r =>
      exact ((hs.resolve_left id).faultsIn_read next).bind fun _ => faultsIn_modifyCpu _
    | mem a =>
      exact ((hs.resolve_left id).faultsIn_read next).bind fun _ => faultsIn_modifyCpu _
    | imm v =>
      exact ((hs.resolve_left id).faultsIn_read next).bind fun _ => faultsIn_modifyCpu _
  · obtain ⟨s, rfl⟩ := hs.eq_vec
    cases dst with
    | vec d => exact absurd hd id
    | reg r => exact (faultsIn_lowWord s.index).bind fun _ => hd.faultsIn_write next _
    | mem a => exact (faultsIn_lowWord s.index).bind fun _ => hd.faultsIn_write next _
    | imm v => exact absurd hd id

/-- The count of a shift is a number or in a vector operand. -/
theorem faultsIn_shiftLanes (op : LaneShift) (hd : dst.IsVec) (hs : src.Vector ∨ src.IsImm) :
    (shiftLanes op w (dst.bind next) (src.bind next) : Exec σ Unit).FaultsIn IsMemory := by
  -- however the count is found, the shift itself works on a register
  have hrest : ∀ count, (do (dst.bind next).writeXmm (op.apply w count (← (dst.bind next).readXmm)) :
      Exec σ Unit).FaultsIn IsMemory := fun count =>
    (hd.vector.faultsIn_readXmm next).bind fun _ => hd.vector.faultsIn_writeXmm next _
  rcases hs with hs | hs
  · obtain ⟨v, rfl⟩ | ⟨a, rfl⟩ := hs.eq_vec_or_mem
    · exact (hs.faultsIn_readXmm next).bind fun _ => (faultsIn_pure _).bind hrest
    · exact (hs.faultsIn_readXmm next).bind fun _ => (faultsIn_pure _).bind hrest
  · obtain ⟨n, rfl⟩ := hs.eq_imm
    exact (faultsIn_pure n.toNat).bind hrest

/-- The count of a shift of bytes is a number. -/
theorem faultsIn_shiftBytes (op : LaneShift) (hd : dst.IsVec) (hs : src.IsImm) :
    (shiftBytes op (dst.bind next) (src.bind next) : Exec σ Unit).FaultsIn IsMemory := by
  obtain ⟨n, rfl⟩ := hs.eq_imm
  exact (hd.vector.faultsIn_readXmm next).bind fun _ => hd.vector.faultsIn_writeXmm next _

/-- Scalar arithmetic reads one number from its source. -/
theorem faultsIn_float (op : FloatOp) (p : Precision) (hd : dst.IsVec) (hs : src.Vector) :
    (float op p (dst.bind next) (src.bind next) : Exec σ Unit).FaultsIn IsMemory :=
  (faultsIn_readScalar next p hs).bind fun _ => (faultsIn_vecIndex next hd).bind fun d =>
    (faultsIn_viewVec d (VectorReg.scalar p)).bind fun _ => faultsIn_modifyCpu _

/-- A comparison reads one number from its source. -/
theorem faultsIn_compareFloats (p : Precision) (hd : dst.IsVec) (hs : src.Vector) :
    (compareFloats p (dst.bind next) (src.bind next) : Exec σ Unit).FaultsIn IsMemory :=
  (faultsIn_readScalar next p hs).bind fun _ => (faultsIn_vecIndex next hd).bind fun d =>
    (faultsIn_viewVec d (VectorReg.scalar p)).bind fun _ =>
      faultsIn_cpu.bind fun _ => faultsIn_modifyCpu _

/-- An integer is read. -/
theorem faultsIn_ofInteger (p : Precision) (hd : dst.IsVec) (hs : src.Source w) :
    (ofInteger p w (dst.bind next) (src.bind next) : Exec σ Unit).FaultsIn IsMemory :=
  (hs.faultsIn_read next).bind fun _ => (faultsIn_vecIndex next hd).bind fun _ =>
    faultsIn_modifyCpu _

/-- An integer is written. -/
theorem faultsIn_toInteger (p : Precision) (hd : dst.Target w) (hs : src.Vector) :
    (toInteger p w (dst.bind next) (src.bind next) : Exec σ Unit).FaultsIn IsMemory :=
  (faultsIn_readScalar next p hs).bind fun _ => hd.faultsIn_write next _

/-- A single-precision number is read. -/
theorem faultsIn_widen (hd : dst.IsVec) (hs : src.Vector) :
    (widen (dst.bind next) (src.bind next) : Exec σ Unit).FaultsIn IsMemory :=
  (faultsIn_readScalar next .single hs).bind fun _ => (faultsIn_vecIndex next hd).bind fun _ =>
    faultsIn_modifyCpu _

/-- A double-precision number is read. -/
theorem faultsIn_narrow (hd : dst.IsVec) (hs : src.Vector) :
    (narrow (dst.bind next) (src.bind next) : Exec σ Unit).FaultsIn IsMemory :=
  (faultsIn_readScalar next .double hs).bind fun _ => (faultsIn_vecIndex next hd).bind fun _ =>
    faultsIn_modifyCpu _

/-- The mask is written at full width whatever the width of the register. -/
theorem faultsIn_moveMask {r : Reg} (hs : src.IsVec) :
    (do ((Operand.reg r).bind next).write .w64 (byteSigns (← (src.bind next).readXmm)) :
      Exec σ Unit).FaultsIn IsMemory :=
  (hs.vector.faultsIn_readXmm next).bind fun _ => faultsIn_modifyCpu _

/-- **Vector operations.** With operands that fit, all faults are faults of memory. -/
theorem faultsIn_sse (op : SseOp) (h : op.Fits dst src)
    (hmem : dst.isMem = false ∨ src.isMem = false) :
    (sse op (dst.bind next) (src.bind next) : Exec σ Unit).FaultsIn IsMemory := by
  cases op with
  | movePacked form => exact faultsIn_movePacked next h.1 h.2
  | moveScalar p => exact faultsIn_moveScalar next p h.1 h.2 hmem
  | movd => exact faultsIn_moveInteger next h
  | movq => exact faultsIn_moveInteger next h
  | logic op => exact faultsIn_binary next _ h.1 h.2
  | lanes op lane => exact faultsIn_binary next _ h.1 h.2
  | moveMask =>
    obtain ⟨⟨r, rfl, _⟩, hs⟩ := h
    exact faultsIn_moveMask next hs
  | shiftLanes op lane => exact faultsIn_shiftLanes next op h.1 h.2
  | shiftBytes op => exact faultsIn_shiftBytes next op h.1 h.2
  | float op p => exact faultsIn_float next op p h.1 h.2
  | compare ordered p => exact faultsIn_compareFloats next p h.1 h.2
  | ofInteger p w => exact faultsIn_ofInteger next p h.1 h.2
  | toInteger p w => exact faultsIn_toInteger next p h.1 h.2
  | widen => exact faultsIn_widen next h.1 h.2
  | narrow => exact faultsIn_narrow next h.1 h.2

/-! ### VEX encoding -/

/-- The operand that is a register says how many bits are moved. -/
theorem faultsIn_vexMove (hd : dst.Vector) (hs : src.Vector)
    (hmem : dst.isMem = false ∨ src.isMem = false) :
    (vexMove (dst.vecSize? <|> src.vecSize?) (dst.bind next) (src.bind next) :
      Exec σ Unit).FaultsIn IsMemory := by
  have hsize : ∃ size, (dst.vecSize? <|> src.vecSize?) = some size := by
    obtain ⟨d, rfl⟩ | ⟨a, rfl⟩ := hd.eq_vec_or_mem
    · exact ⟨d.size, rfl⟩
    · obtain ⟨s, rfl⟩ | ⟨b, rfl⟩ := hs.eq_vec_or_mem
      · exact ⟨s.size, rfl⟩
      · exact absurd hmem (by simp [Operand.isMem])
  obtain ⟨size, hsome⟩ := hsize
  rw [hsome]
  exact (faultsIn_readWide next size hs).bind fun _ => faultsIn_writeWide next size hd _

/-- Two sources are read, of which the first is a register. -/
theorem faultsIn_vexBinary (op : VexOp) (size : VecSize) (d l : VecReg) {rhs : Operand}
    (hr : rhs.Vector) :
    (vexBinary op size ((Operand.vec d).bind next) ((Operand.vec l).bind next) (rhs.bind next) :
      Exec σ Unit).FaultsIn IsMemory := by
  have hvec : ∀ v, (Operand.vec v).Vector := fun _ => trivial
  exact (faultsIn_readWide next size (hvec l)).bind fun _ =>
    (faultsIn_readWide next size hr).bind fun _ => faultsIn_writeWide next size (hvec d) _

end Exec

end Amd64
