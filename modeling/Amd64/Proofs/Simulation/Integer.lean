import Amd64.Proofs.Simulation.Basic
import Amd64.Semantics.Integer
import Amd64.Semantics.Routines
import Amd64.Semantics.Strings
import Amd64.Semantics.Transfer

namespace Amd64

/-!
# Integer instructions and routines run alike

One lemma for each way to execute, whatever the operands are.

* `Exec.alike_stringRounds` — a repetition, by induction on its rounds;
* `Exec.alike_intrinsic`    — a routine, which walks through memory.
-/

namespace Exec

open Machine (Related)

variable {σ τ : Type} {E : Cpu → Cpu → Prop} {S : σ → τ → Prop} [Bus σ] [Bus τ]
  (h : Machine.Congruence E S) (dst src : Location) (w : Width)

include h

/-! ### Integer instructions -/

/-- An operand is replaced by a function of it and of the flags. -/
theorem alike_update (f : Flags → UInt64 → UInt64 × Flags) :
    Alike (Related E S) (update dst w f) (update dst w f) := by
  refine (dst.alike_read h w).bind fun a => alike_cpu h fun s t hst => ?_
  rw [hst.flags]
  exact (dst.alike_write h w _).bind fun _ => alike_setFlags h _

/-- Arithmetic on two operands. -/
theorem alike_arith (op : ArithOp) :
    Alike (Related E S) (arith op dst src w) (arith op dst src w) := by
  refine (dst.alike_read h w).bind fun a => (src.alike_read h w).bind fun b => ?_
  refine alike_cpu h fun s t hst => ?_
  rw [hst.flags]
  exact (dst.alike_write h w _).bind fun _ => alike_setFlags h _

/-- A comparison of two operands. -/
theorem alike_cmp : Alike (Related E S) (cmp dst src w) (cmp dst src w) := by
  refine (dst.alike_read h w).bind fun a => (src.alike_read h w).bind fun b => ?_
  refine alike_cpu h fun s t hst => ?_
  rw [hst.flags]
  exact alike_setFlags h _

/-- A test of two operands. -/
theorem alike_test : Alike (Related E S) (test dst src w) (test dst src w) := by
  refine (dst.alike_read h w).bind fun a => (src.alike_read h w).bind fun b => ?_
  refine alike_cpu h fun s t hst => ?_
  rw [hst.flags]
  exact alike_setFlags h _

/-- The complement of an operand. -/
theorem alike_complement : Alike (Related E S) (complement dst w) (complement dst w) :=
  (dst.alike_read h w).bind fun _ => dst.alike_write h w _

/-- A pair of registers is written. -/
theorem alike_writePair (low high : UInt64) :
    Alike (Related E S) (writePair w low high) (writePair w low high) := by
  unfold writePair
  split
  · exact alike_writeReg h _ _
  · exact (alike_writeReg h _ _).bind fun _ => alike_writeReg h _ _

/-- A product goes to a pair of registers. -/
theorem alike_multiply (product : Width → UInt64 → UInt64 → Product) :
    Alike (Related E S) (multiply product src w) (multiply product src w) := by
  refine (src.alike_read h w).bind fun b => alike_cpu h fun s t hst => ?_
  rw [hst.readReg, hst.flags]
  exact (alike_writePair h w _ _).bind fun _ => alike_setFlags h _

/-- A division looks at a pair of registers, and both sides fault or none. -/
theorem alike_divide (quotient : Width → UInt64 → UInt64 → UInt64 → Option (UInt64 × UInt64)) :
    Alike (Related E S) (divide quotient src w) (divide quotient src w) := by
  refine (src.alike_read h w).bind fun d => alike_cpu h fun s t hst => ?_
  have hhigh : highHalf s w = highHalf t w := by
    unfold highHalf
    rw [hst.readReg]
  rw [hst.readReg, hst.rip, hhigh]
  split
  · exact alike_throw _
  · exact alike_writePair h w _ _

/-- Products and quotients. -/
theorem alike_mulDiv (op : MulDivOp) : Alike (Related E S) (mulDiv op src w) (mulDiv op src w) := by
  cases op with
  | mul => exact alike_multiply h src w mulWide
  | imul => exact alike_multiply h src w imulWide
  | div => exact alike_divide h src w divWide?
  | idiv => exact alike_divide h src w idivWide?

/-- A product of two operands. -/
theorem alike_imul (r : Reg) (imm : Option UInt64) :
    Alike (Related E S) (imul r src imm w) (imul r src imm w) := by
  refine (src.alike_read h w).bind fun b => alike_cpu h fun s t hst => ?_
  rw [hst.readReg, hst.flags]
  exact (alike_writeReg h _ _).bind fun _ => alike_setFlags h _

/-- A shift by a number or by a register. -/
theorem alike_shift (op : ShiftOp) (count : ShiftCount) :
    Alike (Related E S) (shift op dst count w) (shift op dst count w) := by
  refine alike_cpu h fun s t hst => ?_
  have hcount : rawCount s count = rawCount t count := by
    cases count with
    | imm n => rfl
    | cl => rw [rawCount, rawCount, hst.readReg]
  rw [hcount]
  exact alike_update h dst w _

/-- Single flags. -/
theorem alike_flag (op : FlagOp) : Alike (Related E S) (flag op) (flag op) := by
  refine alike_cpu h fun s t hst => ?_
  rw [hst.flags]
  exact alike_setFlags h _

/-! ### Moves and the stack -/

/-- A move. -/
theorem alike_mov : Alike (Related E S) (mov dst src w) (mov dst src w) :=
  (src.alike_read h w).bind fun _ => dst.alike_write h w _

/-- A move with zeros. -/
theorem alike_movzx (r : Reg) : Alike (Related E S) (movzx r src w) (movzx r src w) :=
  (src.alike_read h w).bind fun _ => alike_writeReg h r _

/-- A move with the sign. -/
theorem alike_movsx (r : Reg) : Alike (Related E S) (movsx r src w) (movsx r src w) :=
  (src.alike_read h w).bind fun _ => alike_writeReg h r _

/-- The computation of an address. -/
theorem alike_lea (r : Reg) : Alike (Related E S) (lea r src) (lea r src) := by
  unfold lea
  split
  · next m =>
    refine alike_cpu h fun s t hst => ?_
    rw [hst.offset m]
    exact alike_writeReg h r _
  · exact alike_invalidOpcode h

/-- An exchange, which reads both operands first. -/
theorem alike_xchg : Alike (Related E S) (xchg dst src w) (xchg dst src w) := by
  refine (dst.alike_read h w).bind fun x => (src.alike_read h w).bind fun y => Alike.ite ?_ ?_
  · exact (src.alike_write h w x).bind fun _ => dst.alike_write h w y
  · exact (dst.alike_write h w y).bind fun _ => src.alike_write h w x

/-- A push writes to the stack. -/
theorem alike_pushValue (v : UInt64) :
    Alike (Related E S) (pushValue w v) (pushValue w v) := by
  refine alike_cpu h fun s t hst => ?_
  rw [hst.gpr]
  exact (alike_access (h.bus.writeWord w _ v)).bind fun _ => alike_setGpr h _ _

/-- A pop reads from the stack. -/
theorem alike_popValue : Alike (Related E S) (popValue w) (popValue w) := by
  refine alike_cpu h fun s t hst => ?_
  rw [hst.gpr]
  exact (alike_access (h.bus.readWord w _)).bind fun v => (alike_setGpr h _ _).bind fun _ =>
    alike_pure v

/-- The operand of a push is read first. -/
theorem alike_push : Alike (Related E S) (push src w) (push src w) :=
  (src.alike_read h w).bind fun v => alike_pushValue h w v

/-- The stack pointer moves before the destination of a pop is found, and back if it cannot be written. -/
theorem alike_pop : Alike (Related E S) (pop dst w) (pop dst w) := by
  refine alike_cpu h fun s t hst => ?_
  rw [hst.gpr]
  refine (alike_popValue h w).bind fun v => (dst.alike_write h w v).tryCatch fun f => ?_
  exact (alike_setGpr h _ _).bind fun _ => alike_throw f

/-- The accumulator is extended. -/
theorem alike_extendAcc : Alike (Related E S) (extendAcc w) (extendAcc w) := by
  refine alike_cpu h fun s t hst => ?_
  rw [hst.readReg]
  exact alike_writeReg h _ _

/-- The data register is filled with the sign. -/
theorem alike_fillData : Alike (Related E S) (fillData w) (fillData w) := by
  refine alike_cpu h fun s t hst => ?_
  rw [hst.readReg]
  exact alike_writeReg h _ _

/-- A condition is written. -/
theorem alike_setcc (cond : Condition) : Alike (Related E S) (setcc cond dst) (setcc cond dst) := by
  refine alike_cpu h fun s t hst => ?_
  rw [hst.holds]
  exact dst.alike_write h .w8 _

/-- A conditional move, which reads its source in any case. -/
theorem alike_cmovcc (cond : Condition) (r : Reg) :
    Alike (Related E S) (cmovcc cond r src w) (cmovcc cond r src w) := by
  refine (src.alike_read h w).bind fun v => alike_cpu h fun s t hst => ?_
  rw [hst.holds, hst.readReg]
  exact alike_writeReg h r _

/-! ### String instructions -/

/-- A pointer is moved on by an element. -/
theorem alike_advance (pointer : Reg) : Alike (Related E S) (advance pointer w) (advance pointer w) := by
  refine alike_cpu h fun s t hst => ?_
  rw [hst.readReg, hst.flags]
  exact alike_writeReg h pointer _

/-- Elements are compared. -/
theorem alike_compareElements (a b : UInt64) :
    Alike (Related E S) (compareElements w a b) (compareElements w a b) := by
  refine alike_cpu h fun s t hst => ?_
  rw [hst.flags]
  exact alike_setFlags h _

/-- One round of a string instruction. -/
theorem alike_stringStep (op : StringOp) (narrow : Bool) :
    Alike (Related E S) (stringStep op w narrow) (stringStep op w narrow) := by
  have hread : ∀ a, Alike (Related E S) (access (Bus.readWord w a)) (access (Bus.readWord w a)) :=
    fun a => alike_access (h.bus.readWord w a)
  have hwrite : ∀ a v,
      Alike (Related E S) (access (Bus.writeWord w a v)) (access (Bus.writeWord w a v)) :=
    fun a v => alike_access (h.bus.writeWord w a v)
  refine alike_cpu h fun s t hst => ?_
  rw [hst.readReg]
  cases op with
  | movs =>
    exact (hread _).bind fun v => (hwrite _ v).bind fun _ => (alike_advance h w _).bind fun _ =>
      alike_advance h w _
  | stos => exact (hwrite _ _).bind fun _ => alike_advance h w _
  | lods =>
    exact (hread _).bind fun v => (alike_writeReg h _ v).bind fun _ => alike_advance h w _
  | cmps =>
    exact (hread _).bind fun a => (hread _).bind fun b => (alike_compareElements h w a b).bind fun _ =>
      (alike_advance h w _).bind fun _ => alike_advance h w _
  | scas =>
    exact (hread _).bind fun b => (alike_compareElements h w _ b).bind fun _ => alike_advance h w _

/-- Some rounds, by induction on their number. -/
theorem alike_stringRounds (op : StringOp) (times : Repeat) (narrow : Bool) (n : Nat) :
    Alike (Related E S) (stringRounds op w times narrow n) (stringRounds op w times narrow n) := by
  -- induction on the rounds that are left
  induction n with
  | zero => exact alike_pure ()
  | succ n ih =>
    refine (alike_stringStep h w op narrow).bind fun _ => Alike.bind ?_ fun _ => ?_
    · refine alike_cpu h fun s t hst => ?_
      rw [hst.readReg]
      exact alike_writeReg h _ _
    · refine alike_cpu h fun s t hst => ?_
      rw [hst.flags]
      exact Alike.ite (alike_pure ()) ih

/-- A string instruction with its repetition. -/
theorem alike_string (op : StringOp) (times : Repeat) (narrow : Bool) :
    Alike (Related E S) (string op w times narrow) (string op w times narrow) := by
  unfold string
  split
  · exact alike_stringStep h w op narrow
  · refine alike_cpu h fun s t hst => ?_
    rw [hst.readReg]
    exact alike_stringRounds h w op times narrow _

/-! ### Routines -/

/-- A search, by induction on the number of bytes. -/
theorem alike_scanFor (stop : UInt8 → Bool) (n : Nat) (a : UInt64) :
    Alike (Related E S) (scanFor stop n a) (scanFor stop n a) := by
  induction n generalizing a with
  | zero => exact alike_throw _
  | succ n ih =>
    refine (alike_access (h.bus.readWord .w8 a)).bind fun b => ?_
    exact Alike.ite (alike_pure a) (ih (a + 1))

/-- A copy, by induction on the number of bytes. -/
theorem alike_copyBytes (target source : UInt64) (n : Nat) :
    Alike (Related E S) (copyBytes target source n) (copyBytes target source n) := by
  -- each chunk leaves fewer bytes
  induction n using Nat.strongRecOn generalizing target source with
  | ind n ih =>
    unfold copyBytes
    by_cases hn : n = 0
    · rw [if_pos hn, if_pos hn]
      exact alike_pure ()
    · rw [if_neg hn, if_neg hn]
      refine (alike_access (h.bus.readBytes _ _)).bind fun bs => ?_
      refine (alike_access (h.bus.writeBytes _ bs)).bind fun _ => ih _ ?_ _ _
      simp only [chunkSize]
      omega

/-- A fill, by induction on the number of bytes. -/
theorem alike_fillBytes (target : UInt64) (b : UInt8) (n : Nat) :
    Alike (Related E S) (fillBytes target b n) (fillBytes target b n) := by
  induction n using Nat.strongRecOn generalizing target with
  | ind n ih =>
    unfold fillBytes
    by_cases hn : n = 0
    · rw [if_pos hn, if_pos hn]
      exact alike_pure ()
    · rw [if_neg hn, if_neg hn]
      refine (alike_access (h.bus.writeBytes _ _)).bind fun _ => ih _ ?_ _
      simp only [chunkSize]
      omega

/-- A routine has its arguments in general-purpose registers. -/
theorem alike_routine (id : Intrinsic) {s t : Cpu} (hst : s.Agrees t) :
    Alike (Related E S) (routine id s) (routine id t) := by
  unfold routine
  rw [hst.gpr]
  cases id with
  | strlen => exact (alike_scanFor h _ _ _).bind fun _ => alike_pure _
  | strchrnul => exact alike_scanFor h _ _ _
  | memcpy => exact (alike_copyBytes h _ _ _).bind fun _ => alike_pure _
  | memset => exact (alike_fillBytes h _ _ _).bind fun _ => alike_pure _

/-- A routine and the return from it. -/
theorem alike_intrinsic (id : Intrinsic) :
    Alike (Related E S) (intrinsic id) (intrinsic id) := by
  refine alike_cpu h fun s t hst => ?_
  rw [hst.gpr]
  refine (alike_access (h.bus.readWord .w64 _)).bind fun target => ?_
  refine (alike_routine h id hst).bind fun result => ?_
  exact (alike_setGpr h _ _).bind fun _ => (alike_setGpr h _ _).bind fun _ => alike_pure target

end Exec

end Amd64
