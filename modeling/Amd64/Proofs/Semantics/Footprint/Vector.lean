import Amd64.Proofs.Semantics.Footprint.Basic
import Amd64.Semantics.Sse
import Amd64.Semantics.Vex

namespace Amd64

/-!
# What vector instructions touch

Vector registers may change without notice. What is left are the few operations that write flags or a
general-purpose register, and the accesses, of which those of 256 bits are made in two halves.

* `SseOp.effect`     — the general-purpose register and the flags that an operation writes;
* `Exec.carries_sse` — vector operations in the legacy encoding;
* `Exec.carries_vexMove`, `Exec.carries_vexBinary` — the same in the VEX encoding.
-/

/-- A comparison of numbers sets status flags only. -/
theorem Flags.sameOutside_ofOrder (f : Flags) (order : Option Ordering) :
    status.SameOutside f (f.ofOrder order) := by
  rcases order with _ | _ | _ | _ <;> constructor <;> simp [status, ofOrder]

/-- What an operation changes whose destination is one of the registers `gs`, if it is a general-purpose
    register. Comparisons have no destination. -/
def SseOp.effect (op : SseOp) (gs : List Gpr) : Effect :=
  match op with
  | compare _ _ => ⟨[], .status⟩
  | _ => ⟨gs, .empty⟩

namespace Exec

variable {σ : Type} [Bus σ] {log : σ → List Attempt} (hlog : Bus.Logs log)
  {A : Access → UInt64 → Prop} {s : Cpu} {e : Effect} {dst src : Location}

omit [Bus σ] in
/-- To find the destination changes nothing. -/
theorem carries_vecIndex (l : Location) :
    Carries log A s.Agrees s.Agrees (vecIndex l : Exec σ (Fin 16)) := by
  cases l with
  | vec v => exact carries_pure (fun _ hu => hu) v.index
  | reg r => exact carries_invalidOpcode
  | mem m => exact carries_invalidOpcode
  | imm v => exact carries_invalidOpcode

omit [Bus σ] in
/-- The low word of a register is read in place. -/
theorem carries_lowWord (i : Fin 16) :
    Carries log A s.Agrees s.Agrees (lowWord i : Exec σ UInt64) :=
  (carries_viewVec i VectorReg.xmm).bind fun _ => carries_pure (fun _ hu => hu) _

/-! ### Legacy encoding -/

section
variable (hsrc : src.Within .read A s)

include hlog hsrc

/-- A number is read from a register or with one access. -/
theorem carries_readScalar (p : Precision) :
    Carries log A s.Agrees s.Agrees (readScalar p src : Exec σ UInt64) := by
  cases src with
  | vec v => exact carries_viewVec v.index (VectorReg.scalar p)
  | mem m =>
    refine carries_cpu fun t ht => ?_
    rw [← ht.effective m]
    exact carries_readWord hlog hsrc p.width
  | reg r => exact carries_invalidOpcode
  | imm v => exact carries_invalidOpcode

/-- Scalar arithmetic changes a vector register. -/
theorem carries_float (op : FloatOp) (p : Precision) :
    Carries log A s.Agrees s.Agrees (float op p dst src : Exec σ Unit) :=
  (carries_readScalar hlog hsrc p).bind fun _ => (carries_vecIndex dst).bind fun d =>
    (carries_viewVec d (VectorReg.scalar p)).bind fun _ => carries_modifyVec d _

/-- A comparison of numbers changes flags. -/
theorem carries_compareFloats (p : Precision) :
    Carries log A s.Agrees (s.ChangesOnly ⟨[], .status⟩) (compareFloats p dst src : Exec σ Unit) := by
  refine (carries_readScalar hlog hsrc p).bind fun b => (carries_vecIndex dst).bind fun d =>
    (carries_viewVec d (VectorReg.scalar p)).bind fun a => carries_cpu fun t ht => ?_
  rw [← ht.flags]
  exact (carries_setFlags (s.flags.sameOutside_ofOrder _)).ofAgrees

/-- A conversion from an integer changes a vector register. -/
theorem carries_ofInteger (p : Precision) (w : Width) :
    Carries log A s.Agrees s.Agrees (ofInteger p w dst src : Exec σ Unit) :=
  (Location.carries_read hlog hsrc w).bind fun _ => (carries_vecIndex dst).bind fun d =>
    carries_modifyVec d _

/-- To widen a number changes a vector register. -/
theorem carries_widen : Carries log A s.Agrees s.Agrees (widen dst src : Exec σ Unit) :=
  (carries_readScalar hlog hsrc .single).bind fun _ => (carries_vecIndex dst).bind fun d =>
    carries_modifyVec d _

/-- To narrow a number changes a vector register. -/
theorem carries_narrow : Carries log A s.Agrees s.Agrees (narrow dst src : Exec σ Unit) :=
  (carries_readScalar hlog hsrc .double).bind fun _ => (carries_vecIndex dst).bind fun d =>
    carries_modifyVec d _

variable (hdst : ∀ k, dst.Within k A s)

include hdst

/-- An operation on two vectors changes a vector register. -/
theorem carries_binary (f : BitVec 128 → BitVec 128 → BitVec 128) :
    Carries log A s.Agrees s.Agrees (binary f dst src : Exec σ Unit) :=
  (Location.carries_readXmm hlog hsrc).bind fun _ =>
    (Location.carries_readXmm hlog (hdst .read)).bind fun _ => Location.carries_writeXmm hlog (hdst .write) _

/-- A scalar move changes a vector register or memory. -/
theorem carries_moveScalar (p : Precision) :
    Carries log A s.Agrees s.Agrees (moveScalar p dst src : Exec σ Unit) := by
  unfold moveScalar
  split
  · next d v =>
    exact (carries_viewVec v.index (VectorReg.scalar p)).bind fun _ => carries_modifyVec d.index _
  · next d m =>
    refine carries_cpu fun t ht => ?_
    rw [← ht.effective m]
    exact (carries_readWord hlog hsrc p.width).bind fun _ => carries_modifyVec d.index _
  · next m v =>
    refine (carries_viewVec v.index (VectorReg.scalar p)).bind fun x => carries_cpu fun t ht => ?_
    rw [← ht.effective m]
    exact carries_writeWord hlog (hdst .write) p.width x
  · exact carries_invalidOpcode

/-- A move between register files may change a general-purpose register. -/
theorem carries_moveInteger (hgs : ∀ g ∈ dst.gprs, g ∈ e.gprs) (w : Width) :
    Carries log A s.Agrees (s.ChangesOnly e) (moveInteger w dst src : Exec σ Unit) := by
  unfold moveInteger
  split
  · next d v =>
    exact ((carries_lowWord v.index).bind fun _ => carries_modifyVec d.index _).post
      fun _ hu => hu.changesOnly
  · next d _ =>
    exact ((Location.carries_read hlog hsrc w).bind fun _ => carries_modifyVec d.index _).post
      fun _ hu => hu.changesOnly
  · next v _ =>
    exact (carries_lowWord v.index).bind fun x => Location.carries_write hlog (hdst .write) hgs w x
  · exact carries_invalidOpcode

/-- A shift of lanes changes a vector register. -/
theorem carries_shiftLanes (op : LaneShift) (w : Width) :
    Carries log A s.Agrees s.Agrees (shiftLanes op w dst src : Exec σ Unit) := by
  -- however the count is found, the shift itself works on the destination
  have hshift : ∀ count : Nat, Carries log A s.Agrees s.Agrees
      (do dst.writeXmm (op.apply w count (← dst.readXmm)) : Exec σ Unit) :=
    fun count => (Location.carries_readXmm hlog (hdst .read)).bind fun _ =>
      Location.carries_writeXmm hlog (hdst .write) _
  unfold shiftLanes
  split
  · next n => exact hshift n.toNat
  · exact (Location.carries_readXmm hlog hsrc).bind fun _ => hshift _

/-- A shift of bytes changes a vector register. -/
theorem carries_shiftBytes (op : LaneShift) :
    Carries log A s.Agrees s.Agrees (shiftBytes op dst src : Exec σ Unit) := by
  unfold shiftBytes
  split
  · exact (Location.carries_readXmm hlog (hdst .read)).bind fun _ => Location.carries_writeXmm hlog (hdst .write) _
  · exact carries_invalidOpcode

/-- **Vector operations.** Few of them change more than vector registers. -/
theorem carries_sse {gs : List Gpr} (hgs : ∀ g ∈ dst.gprs, g ∈ gs) (op : SseOp) :
    Carries log A s.Agrees (s.ChangesOnly (op.effect gs)) (sse op dst src : Exec σ Unit) := by
  -- an operation that writes no flags changes the listed registers at most
  have hvector : ∀ {x : Exec σ Unit}, Carries log A s.Agrees s.Agrees x →
      Carries log A s.Agrees (s.ChangesOnly ⟨gs, .empty⟩) x :=
    fun hx => hx.post fun _ hu => hu.changesOnly
  cases op with
  | movePacked form =>
    exact hvector ((Location.carries_readXmm hlog hsrc).bind fun _ =>
      Location.carries_writeXmm hlog (hdst .write) _)
  | moveScalar p => exact hvector (carries_moveScalar hlog hsrc hdst p)
  | movd => exact carries_moveInteger hlog hsrc hdst (e := ⟨gs, .empty⟩) hgs .w32
  | movq => exact carries_moveInteger hlog hsrc hdst (e := ⟨gs, .empty⟩) hgs .w64
  | logic op => exact hvector (carries_binary hlog hsrc hdst op.apply)
  | lanes op lane => exact hvector (carries_binary hlog hsrc hdst (op.apply lane))
  | moveMask =>
    exact (Location.carries_readXmm hlog hsrc).bind fun _ =>
      Location.carries_write hlog (hdst .write) (e := ⟨gs, .empty⟩) hgs .w64 _
  | shiftLanes op lane => exact hvector (carries_shiftLanes hlog hsrc hdst op lane)
  | shiftBytes op => exact hvector (carries_shiftBytes hlog hsrc hdst op)
  | float op p => exact hvector (carries_float hlog hsrc op p)
  | compare ordered p => exact carries_compareFloats hlog hsrc p
  | ofInteger p w => exact hvector (carries_ofInteger hlog hsrc p w)
  | toInteger p w =>
    exact (carries_readScalar hlog hsrc p).bind fun _ =>
      Location.carries_write hlog (hdst .write) (e := ⟨gs, .empty⟩) hgs w _
  | widen => exact hvector (carries_widen hlog hsrc)
  | narrow => exact hvector (carries_narrow hlog hsrc)

end

end Exec

/-! ### VEX encoding -/

/-- If the operand is in memory, `A` holds of accesses of a kind at its address, and at that of the upper
    half of 256 bits. -/
def Location.WithinWide (l : Location) (size : VecSize) (k : Access) (A : Access → UInt64 → Prop)
    (s : Cpu) : Prop :=
  match l, size with
  | mem m, .xmm => A k (m.effective s)
  | mem m, .ymm => A k (m.effective s) ∧ A k (m.effective s + 16)
  | _, _ => True

namespace Exec

variable {σ : Type} [Bus σ] {log : σ → List Attempt} (hlog : Bus.Logs log)
  {A : Access → UInt64 → Prop} {s : Cpu} {dst src : Location} {size : VecSize}

include hlog

/-- A wide value is read in one access of 16 bytes or in two. -/
theorem carries_readWide (hsrc : src.WithinWide size .read A s) :
    Carries log A s.Agrees s.Agrees (readWide src size : Exec σ WideValue) := by
  unfold readWide
  split
  · next v => exact (carries_viewVec v.index VectorReg.xmm).bind fun _ => carries_pure (fun _ hu => hu) _
  · next v => exact (carries_viewVec v.index VectorReg.ymm).bind fun _ => carries_pure (fun _ hu => hu) _
  · next m =>
    refine carries_cpu fun t ht => ?_
    rw [← ht.effective m]
    exact (carries_readXmm hlog hsrc).bind fun _ => carries_pure (fun _ hu => hu) _
  · next m =>
    refine carries_cpu fun t ht => ?_
    rw [← ht.effective m]
    exact (carries_readXmm hlog hsrc.1).bind fun _ => (carries_readXmm hlog hsrc.2).bind fun _ =>
      carries_pure (fun _ hu => hu) _
  · exact carries_invalidOpcode

/-- A wide value is written in one access of 16 bytes or in two. -/
theorem carries_writeWide (hdst : dst.WithinWide size .write A s) (x : WideValue) :
    Carries log A s.Agrees s.Agrees (writeWide dst size x : Exec σ Unit) := by
  unfold writeWide
  split
  · next v => exact carries_modifyVec v.index _
  · next v => exact carries_modifyVec v.index _
  · next m =>
    refine carries_cpu fun t ht => ?_
    rw [← ht.effective m]
    exact carries_writeXmm hlog hdst x.low
  · next m =>
    refine carries_cpu fun t ht => ?_
    rw [← ht.effective m]
    exact (carries_writeXmm hlog hdst.1 x.low).bind fun _ => carries_writeXmm hlog hdst.2 x.high
  · exact carries_invalidOpcode

/-- A move reads and writes at the size of its operands. -/
theorem carries_vexMove {size : Option VecSize}
    (h : ∀ n, size = some n → dst.WithinWide n .write A s ∧ src.WithinWide n .read A s) :
    Carries log A s.Agrees s.Agrees (vexMove size dst src : Exec σ Unit) := by
  cases size with
  | none => exact carries_invalidOpcode
  | some n =>
    obtain ⟨hdst, hsrc⟩ := h n rfl
    exact (carries_readWide hlog hsrc).bind fun x => carries_writeWide hlog hdst x

/-- An operation on two sources reads both and writes its destination. -/
theorem carries_vexBinary (op : VexOp) {lhs rhs : Location} (hdst : dst.WithinWide size .write A s)
    (hlhs : lhs.WithinWide size .read A s) (hrhs : rhs.WithinWide size .read A s) :
    Carries log A s.Agrees s.Agrees (vexBinary op size dst lhs rhs : Exec σ Unit) :=
  (carries_readWide hlog hlhs).bind fun _ => (carries_readWide hlog hrhs).bind fun _ =>
    carries_writeWide hlog hdst _

end Exec

end Amd64
