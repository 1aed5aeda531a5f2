import Amd64.Machine.Snapshot
import Amd64.Proofs.Semantics.Precise.Basic
import Amd64.Proofs.Semantics.Vector

namespace Amd64

/-!
# Precise vector instructions

A view of a vector register may store the number that the register keeps beside its bits.  The register
has the same contents then.

* `Machine.contents`     — the contents of the registers and memory;
* `Exec.keeps_viewVec`   — views keep these;
* `Exec.precise_sse`, `Exec.precise_vexMove`, `Exec.precise_vexBinary` — the instructions.
-/

/-- What a machine holds: the contents of the registers and memory. -/
def Machine.contents (m : Machine Memory) : Snapshot × Memory :=
  (m.cpu.snapshot, m.bus)

/-- Another way to keep the same contents does not show in a snapshot. -/
theorem Cpu.snapshot_setVec {s : Cpu} {i : Fin 16} {r : VectorReg}
    (h : r.contents = (s.vec i).contents) : (s.setVec i r).snapshot = s.snapshot := by
  have hwords : r.words = (s.vec i).words := congrArg Words.ofBits h
  have hlist : (s.setVec i r).vectors.toList.map VectorReg.words =
      s.vectors.toList.map VectorReg.words := by
    have hlt : i.val < (s.vectors.toList.map VectorReg.words).length := by simp
    have hold : (s.vec i).words = (s.vectors.toList.map VectorReg.words)[i.val] := by
      simp [Cpu.vec]
    show (s.vectors.set i r).toList.map VectorReg.words = _
    rw [Vector.toList_set, List.map_set, hwords, hold, List.set_getElem_self]
  show Snapshot.mk _ _ _ _ _ _ = Snapshot.mk _ _ _ _ _ _
  rw [hlist]
  rfl

namespace VectorReg

/-- To look at 128 bits keeps the contents. -/
theorem contents_xmm (r : VectorReg) : r.xmm.2.contents = r.contents := rfl

/-- To look at 256 bits keeps the contents. -/
theorem contents_ymm (r : VectorReg) : r.ymm.2.contents = r.contents := rfl

/-- To look at a number keeps the contents. -/
theorem contents_scalar (p : Precision) (r : VectorReg) :
    (r.scalar p).2.contents = r.contents := by
  cases p with
  | single => exact contents_single r
  | double => exact contents_double r

end VectorReg

/-- A view that keeps the contents of a register keeps those of the machine. -/
theorem Exec.keeps_viewVec {α : Type} (i : Fin 16) (view : VectorReg → α × VectorReg)
    (h : ∀ r, (view r).2.contents = r.contents) :
    Keeps Machine.contents (viewVec i view : Exec Memory α) :=
  fun m => congrArg (·, m.bus) (Cpu.snapshot_setVec (h (m.cpu.vec i)))

/-- To read a number keeps all contents. -/
theorem Exec.keeps_viewScalar (p : Precision) (i : Fin 16) :
    Keeps Machine.contents (viewVec i (VectorReg.scalar p) : Exec Memory UInt64) :=
  keeps_viewVec i (VectorReg.scalar p) (VectorReg.contents_scalar p)

/-- To read an operand of 128 bits keeps all contents. -/
theorem Location.keeps_readXmm (l : Location) :
    Exec.Keeps Machine.contents (l.readXmm : Exec Memory (BitVec 128)) := by
  cases l with
  | reg r => exact Exec.keeps_invalidOpcode
  | vec v => exact Exec.keeps_viewVec v.index VectorReg.xmm VectorReg.contents_xmm
  | mem m => exact Exec.keeps_cpu.bind fun _ => Exec.keeps_ask _
  | imm v => exact Exec.keeps_invalidOpcode

namespace Exec

section
variable (dst src : Location) (w : Width)

/-- To find the destination keeps all contents. -/
theorem keeps_vecIndex : Keeps Machine.contents (vecIndex dst : Exec Memory (Fin 16)) := by
  cases dst with
  | vec v => exact keeps_pure v.index
  | _ => exact keeps_invalidOpcode

/-- To read a number from a register or from memory keeps all contents. -/
theorem keeps_readScalar (p : Precision) :
    Keeps Machine.contents (readScalar p src : Exec Memory UInt64) := by
  cases src with
  | reg r => exact keeps_invalidOpcode
  | vec v => exact keeps_viewScalar p v.index
  | mem m => exact keeps_cpu.bind fun _ => keeps_ask _
  | imm v => exact keeps_invalidOpcode

/-- To read the low word keeps all contents. -/
theorem keeps_lowWord (i : Fin 16) : Keeps Machine.contents (lowWord i : Exec Memory UInt64) :=
  (keeps_viewVec i VectorReg.xmm VectorReg.contents_xmm).bind fun _ => keeps_pure _

/-- An operation on two vectors writes last. -/
theorem precise_binary (f : BitVec 128 → BitVec 128 → BitVec 128) :
    Precise Machine.contents (binary f dst src : Exec Memory Unit) :=
  src.keeps_readXmm.precise_bind fun _ => dst.keeps_readXmm.precise_bind fun _ =>
    dst.precise_writeXmm _

/-- A scalar move writes last. -/
theorem precise_moveScalar (p : Precision) :
    Precise Machine.contents (moveScalar p dst src : Exec Memory Unit) := by
  unfold moveScalar
  split
  · next d s =>
    exact (keeps_viewScalar p s.index).precise_bind fun _ => Total.precise (faultsIn_modifyCpu _)
  · exact keeps_cpu.precise_bind fun _ => (keeps_ask _).precise_bind fun _ =>
      Total.precise (faultsIn_modifyCpu _)
  · next m s =>
    exact (keeps_viewScalar p s.index).precise_bind fun _ =>
      keeps_cpu.precise_bind fun _ => precise_store true _ _
  · exact keeps_invalidOpcode.precise

/-- A move between register files writes last. -/
theorem precise_moveInteger :
    Precise Machine.contents (moveInteger w dst src : Exec Memory Unit) := by
  unfold moveInteger
  split
  · next d s =>
    exact (keeps_lowWord s.index).precise_bind fun _ => Total.precise (faultsIn_modifyCpu _)
  · exact (src.keeps_read w).precise_bind fun _ => Total.precise (faultsIn_modifyCpu _)
  · next s _ => exact (keeps_lowWord s.index).precise_bind fun _ => dst.precise_write w _
  · exact keeps_invalidOpcode.precise

/-- A shift of lanes writes last. -/
theorem precise_shiftLanes (op : LaneShift) :
    Precise Machine.contents (shiftLanes op w dst src : Exec Memory Unit) := by
  have hshift : ∀ count : Nat, Precise Machine.contents
      (do dst.writeXmm (op.apply w count (← dst.readXmm)) : Exec Memory Unit) :=
    fun count => dst.keeps_readXmm.precise_bind fun _ => dst.precise_writeXmm _
  unfold shiftLanes
  split
  · next n => exact hshift n.toNat
  · exact src.keeps_readXmm.precise_bind fun _ => hshift _

/-- A shift of bytes writes last. -/
theorem precise_shiftBytes (op : LaneShift) :
    Precise Machine.contents (shiftBytes op dst src : Exec Memory Unit) := by
  unfold shiftBytes
  split
  · exact dst.keeps_readXmm.precise_bind fun _ => dst.precise_writeXmm _
  · exact keeps_invalidOpcode.precise

/-- Scalar arithmetic writes last. -/
theorem precise_float (op : FloatOp) (p : Precision) :
    Precise Machine.contents (float op p dst src : Exec Memory Unit) :=
  (keeps_readScalar src p).precise_bind fun _ => (keeps_vecIndex dst).precise_bind fun d =>
    (keeps_viewScalar p d).precise_bind fun _ =>
      Total.precise (faultsIn_modifyCpu _)

/-- A comparison of numbers sets flags last. -/
theorem precise_compareFloats (p : Precision) :
    Precise Machine.contents (compareFloats p dst src : Exec Memory Unit) :=
  (keeps_readScalar src p).precise_bind fun _ => (keeps_vecIndex dst).precise_bind fun d =>
    (keeps_viewScalar p d).precise_bind fun _ =>
      keeps_cpu.precise_bind fun _ => Total.precise (faultsIn_modifyCpu _)

/-- A conversion from an integer writes last. -/
theorem precise_ofInteger (p : Precision) :
    Precise Machine.contents (ofInteger p w dst src : Exec Memory Unit) :=
  (src.keeps_read w).precise_bind fun _ => (keeps_vecIndex dst).precise_bind fun _ =>
    Total.precise (faultsIn_modifyCpu _)

/-- A conversion to an integer writes last. -/
theorem precise_toInteger (p : Precision) :
    Precise Machine.contents (toInteger p w dst src : Exec Memory Unit) :=
  (keeps_readScalar src p).precise_bind fun _ => dst.precise_write w _

/-- To widen a number, it is written last. -/
theorem precise_widen : Precise Machine.contents (widen dst src : Exec Memory Unit) :=
  (keeps_readScalar src .single).precise_bind fun _ => (keeps_vecIndex dst).precise_bind fun _ =>
    Total.precise (faultsIn_modifyCpu _)

/-- To narrow a number, it is written last. -/
theorem precise_narrow : Precise Machine.contents (narrow dst src : Exec Memory Unit) :=
  (keeps_readScalar src .double).precise_bind fun _ => (keeps_vecIndex dst).precise_bind fun _ =>
    Total.precise (faultsIn_modifyCpu _)

/-- All operations in the legacy encoding are precise. -/
theorem precise_sse (op : SseOp) :
    Precise Machine.contents (sse op dst src : Exec Memory Unit) := by
  cases op with
  | movePacked form => exact src.keeps_readXmm.precise_bind fun _ => dst.precise_writeXmm _
  | moveScalar p => exact precise_moveScalar dst src p
  | movd => exact precise_moveInteger dst src .w32
  | movq => exact precise_moveInteger dst src .w64
  | logic op => exact precise_binary dst src op.apply
  | lanes op lane => exact precise_binary dst src (op.apply lane)
  | moveMask => exact src.keeps_readXmm.precise_bind fun _ => dst.precise_write .w64 _
  | shiftLanes op lane => exact precise_shiftLanes dst src lane op
  | shiftBytes op => exact precise_shiftBytes dst src op
  | float op p => exact precise_float dst src op p
  | compare ordered p => exact precise_compareFloats dst src p
  | ofInteger p w => exact precise_ofInteger dst src w p
  | toInteger p w => exact precise_toInteger dst src w p
  | widen => exact precise_widen dst src
  | narrow => exact precise_narrow dst src

/-- To read a wide value keeps all contents. -/
theorem keeps_readWide (size : VecSize) :
    Keeps Machine.contents (readWide src size : Exec Memory WideValue) := by
  unfold readWide
  split
  · next v =>
    exact (keeps_viewVec v.index VectorReg.xmm VectorReg.contents_xmm).bind fun _ => keeps_pure _
  · next v =>
    exact (keeps_viewVec v.index VectorReg.ymm VectorReg.contents_ymm).bind fun _ => keeps_pure _
  · exact keeps_cpu.bind fun _ => (keeps_ask _).bind fun _ => keeps_pure _
  · exact keeps_cpu.bind fun _ => (keeps_ask _).bind fun _ => (keeps_ask _).bind fun _ =>
      keeps_pure _
  · exact keeps_invalidOpcode

/-- Only 256 bits are written to memory in two parts. -/
theorem precise_writeWide {size : VecSize} (h : dst.isMem = false ∨ size = .xmm) (x : WideValue) :
    Precise Machine.contents (writeWide dst size x : Exec Memory Unit) := by
  unfold writeWide
  split
  · exact Total.precise (faultsIn_modifyCpu _)
  · exact Total.precise (faultsIn_modifyCpu _)
  · exact keeps_cpu.precise_bind fun _ => precise_store true _ _
  · exact nomatch h.resolve_left (by simp [Location.isMem])
  · exact keeps_invalidOpcode.precise

/-- A move is precise unless it stores 32 bytes, which takes two accesses. -/
theorem precise_vexMove {size : Option VecSize} (h : dst.isMem = false ∨ size ≠ some .ymm) :
    Precise Machine.contents (vexMove size dst src : Exec Memory Unit) := by
  cases size with
  | none => exact keeps_invalidOpcode.precise
  | some size =>
    refine (keeps_readWide src size).precise_bind fun x => precise_writeWide dst (h.imp_right ?_) x
    intro hne
    cases size with
    | xmm => rfl
    | ymm => exact absurd rfl hne

/-- An operation on two sources is precise, since its destination is a register. -/
theorem precise_vexBinary (op : VexOp) (size : VecSize) (lhs rhs : Location)
    (h : dst.isMem = false) :
    Precise Machine.contents (vexBinary op size dst lhs rhs : Exec Memory Unit) :=
  (keeps_readWide lhs size).precise_bind fun _ => (keeps_readWide rhs size).precise_bind fun _ =>
    precise_writeWide dst (Or.inl h) _

end

end Exec

end Amd64
