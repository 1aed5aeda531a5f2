import Amd64.Proofs.Simulation.Basic
import Amd64.Semantics.Sse
import Amd64.Semantics.Vex

namespace Amd64

/-!
# Vector instructions run alike

The vector registers of related machines need not be the same: only what is seen of them is.

* `Exec.alike_sse` — vector operations in the legacy encoding;
* `Exec.alike_vexMove`, `Exec.alike_vexBinary` — the same in the VEX encoding.
-/

namespace Exec

open Machine (Related)

variable {σ τ : Type} {E : Cpu → Cpu → Prop} {S : σ → τ → Prop}

/-- The number of a vector register is part of the instruction. -/
theorem alike_vecIndex [Bus σ] [Bus τ] (h : Machine.Congruence E S) (l : Location) :
    Alike (Related E S) (vecIndex l) (vecIndex l) := by
  cases l with
  | reg r => exact alike_invalidOpcode h
  | vec v => exact alike_pure v.index
  | mem m => exact alike_invalidOpcode h
  | imm v => exact alike_invalidOpcode h

variable [Bus σ] [Bus τ] (h : Machine.Congruence E S) (dst src : Location) (w : Width)

include h

/-- The same number is looked at on both sides. -/
theorem alike_viewScalar (p : Precision) (i : Fin 16) :
    Alike (Related E S) (viewVec i (VectorReg.scalar p)) (viewVec i (VectorReg.scalar p)) :=
  alike_viewVec i (VectorReg.scalar p) (h.cpu.scalar p i)

/-- The same 128 bits are put into both registers. -/
theorem alike_setXmm (i : Fin 16) (x : BitVec 128) :
    Alike (Related E S) (modifyVec i (·.setXmm x)) (modifyVec i (·.setXmm x)) :=
  alike_modifyCpu (h.cpu.setXmm i x)

/-- The same number is put into both registers. -/
theorem alike_setScalar (p : Precision) (i : Fin 16) (x : UInt64) :
    Alike (Related E S) (modifyVec i (·.setScalar p x)) (modifyVec i (·.setScalar p x)) :=
  alike_modifyCpu (h.cpu.setScalar p i x)

/-! ### Legacy encoding -/

/-- A number is read from a register or from memory. -/
theorem alike_readScalar (p : Precision) :
    Alike (Related E S) (readScalar p src) (readScalar p src) := by
  cases src with
  | reg r => exact alike_invalidOpcode h
  | vec v => exact alike_viewScalar h p v.index
  | mem m => exact alike_effective h m (h.bus.readWord p.width)
  | imm v => exact alike_invalidOpcode h

/-- The low word of a register is read. -/
theorem alike_lowWord (i : Fin 16) : Alike (Related E S) (lowWord i) (lowWord i) :=
  (alike_viewVec i VectorReg.xmm (h.cpu.xmm i)).bind fun _ => alike_pure _

/-- An operation on two vectors. -/
theorem alike_binary (f : BitVec 128 → BitVec 128 → BitVec 128) :
    Alike (Related E S) (binary f dst src) (binary f dst src) :=
  (src.alike_readXmm h).bind fun _ => (dst.alike_readXmm h).bind fun _ => dst.alike_writeXmm h _

/-- A scalar move, whose form depends on the operands only. -/
theorem alike_moveScalar (p : Precision) :
    Alike (Related E S) (moveScalar p dst src) (moveScalar p dst src) := by
  unfold moveScalar
  split
  · next d s => exact (alike_viewScalar h p s.index).bind fun v => alike_setScalar h p d.index v
  · next d m =>
    refine alike_cpu h fun s t hst => ?_
    rw [hst.effective m]
    exact (alike_access (h.bus.readWord p.width _)).bind fun v => alike_setXmm h d.index _
  · next m s =>
    exact (alike_viewScalar h p s.index).bind fun v =>
      alike_effective h m fun a => h.bus.writeWord p.width a v
  · exact alike_invalidOpcode h

/-- A move between register files. -/
theorem alike_moveInteger : Alike (Related E S) (moveInteger w dst src) (moveInteger w dst src) := by
  unfold moveInteger
  split
  · next d s => exact (alike_lowWord h s.index).bind fun _ => alike_setXmm h d.index _
  · next d _ => exact (src.alike_read h w).bind fun _ => alike_setXmm h d.index _
  · next s _ => exact (alike_lowWord h s.index).bind fun v => dst.alike_write h w v
  · exact alike_invalidOpcode h

/-- A shift of lanes. -/
theorem alike_shiftLanes (op : LaneShift) :
    Alike (Related E S) (shiftLanes op w dst src) (shiftLanes op w dst src) := by
  -- however the count is found, the shift itself works on the destination
  have hshift : ∀ count : Nat, Alike (Related E S)
      (do dst.writeXmm (op.apply w count (← dst.readXmm)) : Exec σ Unit)
      (do dst.writeXmm (op.apply w count (← dst.readXmm)) : Exec τ Unit) :=
    fun count => (dst.alike_readXmm h).bind fun _ => dst.alike_writeXmm h _
  unfold shiftLanes
  split
  · next n => exact hshift n.toNat
  · exact (src.alike_readXmm h).bind fun _ => hshift _

/-- A shift of bytes. -/
theorem alike_shiftBytes (op : LaneShift) :
    Alike (Related E S) (shiftBytes op dst src) (shiftBytes op dst src) := by
  unfold shiftBytes
  split
  · exact (dst.alike_readXmm h).bind fun _ => dst.alike_writeXmm h _
  · exact alike_invalidOpcode h

/-- Scalar arithmetic. -/
theorem alike_float (op : FloatOp) (p : Precision) :
    Alike (Related E S) (float op p dst src) (float op p dst src) :=
  (alike_readScalar h src p).bind fun _ => (alike_vecIndex h dst).bind fun d =>
    (alike_viewScalar h p d).bind fun _ => alike_setScalar h p d _

/-- A comparison of numbers. -/
theorem alike_compareFloats (p : Precision) :
    Alike (Related E S) (compareFloats p dst src) (compareFloats p dst src) := by
  refine (alike_readScalar h src p).bind fun b => (alike_vecIndex h dst).bind fun d => ?_
  refine (alike_viewScalar h p d).bind fun a => alike_cpu h fun s t hst => ?_
  rw [hst.flags]
  exact alike_setFlags h _

/-- A conversion from an integer. -/
theorem alike_ofInteger (p : Precision) :
    Alike (Related E S) (ofInteger p w dst src) (ofInteger p w dst src) :=
  (src.alike_read h w).bind fun _ => (alike_vecIndex h dst).bind fun d => alike_setScalar h p d _

/-- A conversion to an integer. -/
theorem alike_toInteger (p : Precision) :
    Alike (Related E S) (toInteger p w dst src) (toInteger p w dst src) :=
  (alike_readScalar h src p).bind fun _ => dst.alike_write h w _

/-- To widen a number. -/
theorem alike_widen : Alike (Related E S) (widen dst src) (widen dst src) :=
  (alike_readScalar h src .single).bind fun _ => (alike_vecIndex h dst).bind fun d =>
    alike_modifyCpu (h.cpu.setDouble d _)

/-- To narrow a number. -/
theorem alike_narrow : Alike (Related E S) (narrow dst src) (narrow dst src) :=
  (alike_readScalar h src .double).bind fun _ => (alike_vecIndex h dst).bind fun d =>
    alike_modifyCpu (h.cpu.setSingle d _)

/-- **Vector operations.** They see of vector registers no more than their views show. -/
theorem alike_sse (op : SseOp) : Alike (Related E S) (sse op dst src) (sse op dst src) := by
  cases op with
  | movePacked form => exact (src.alike_readXmm h).bind fun _ => dst.alike_writeXmm h _
  | moveScalar p => exact alike_moveScalar h dst src p
  | movd => exact alike_moveInteger h dst src .w32
  | movq => exact alike_moveInteger h dst src .w64
  | logic op => exact alike_binary h dst src op.apply
  | lanes op lane => exact alike_binary h dst src (op.apply lane)
  | moveMask => exact (src.alike_readXmm h).bind fun _ => dst.alike_write h .w64 _
  | shiftLanes op lane => exact alike_shiftLanes h dst src lane op
  | shiftBytes op => exact alike_shiftBytes h dst src op
  | float op p => exact alike_float h dst src op p
  | compare ordered p => exact alike_compareFloats h dst src p
  | ofInteger p w => exact alike_ofInteger h dst src w p
  | toInteger p w => exact alike_toInteger h dst src w p
  | widen => exact alike_widen h dst src
  | narrow => exact alike_narrow h dst src

/-! ### VEX encoding -/

/-- A wide value is read from a register or in two accesses. -/
theorem alike_readWide (size : VecSize) :
    Alike (Related E S) (readWide src size) (readWide src size) := by
  unfold readWide
  split
  · next v => exact (alike_viewVec v.index VectorReg.xmm (h.cpu.xmm v.index)).bind fun _ => alike_pure _
  · next v => exact (alike_viewVec v.index VectorReg.ymm (h.cpu.ymm v.index)).bind fun _ => alike_pure _
  · next m =>
    refine alike_cpu h fun s t hst => ?_
    rw [hst.effective m]
    exact (alike_access (h.bus.readXmm _)).bind fun _ => alike_pure _
  · next m =>
    refine alike_cpu h fun s t hst => ?_
    rw [hst.effective m]
    exact (alike_access (h.bus.readXmm _)).bind fun _ =>
      (alike_access (h.bus.readXmm _)).bind fun _ => alike_pure _
  · exact alike_invalidOpcode h

/-- A wide value is written to a register or in two accesses. -/
theorem alike_writeWide (size : VecSize) (x : WideValue) :
    Alike (Related E S) (writeWide dst size x) (writeWide dst size x) := by
  unfold writeWide
  split
  · next v => exact alike_modifyCpu (h.cpu.setVec v.index _)
  · next v => exact alike_modifyCpu (h.cpu.setVec v.index _)
  · next m => exact alike_effective h m fun a => h.bus.writeXmm a x.low
  · next m =>
    refine alike_cpu h fun s t hst => ?_
    rw [hst.effective m]
    exact (alike_access (h.bus.writeXmm _ x.low)).bind fun _ =>
      alike_access (h.bus.writeXmm _ x.high)
  · exact alike_invalidOpcode h

/-- A move in the VEX encoding. -/
theorem alike_vexMove (size : Option VecSize) :
    Alike (Related E S) (vexMove size dst src) (vexMove size dst src) := by
  cases size with
  | none => exact alike_invalidOpcode h
  | some size => exact (alike_readWide h src size).bind fun x => alike_writeWide h dst size x

/-- An operation on two sources. -/
theorem alike_vexBinary (op : VexOp) (size : VecSize) (lhs rhs : Location) :
    Alike (Related E S) (vexBinary op size dst lhs rhs) (vexBinary op size dst lhs rhs) :=
  (alike_readWide h lhs size).bind fun _ => (alike_readWide h rhs size).bind fun _ =>
    alike_writeWide h dst size _

end Exec

end Amd64
