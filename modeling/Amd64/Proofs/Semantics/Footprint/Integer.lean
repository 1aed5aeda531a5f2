import Amd64.Proofs.Machine.Views
import Amd64.Proofs.Semantics.Footprint.Basic
import Amd64.Semantics.Transfer

namespace Amd64

/-!
# What integer instructions touch

One lemma for each way to execute. Operands are looked up in the registers at the start, except for that of a
`pop`, which sees the moved stack pointer.

* `ArithOp.flagEffect`, `ShiftOp.flagEffect`, `FlagOp.flagEffect` — the flags that families of operations write;
* `Exec.carries_update`, `Exec.carries_arith`, … — arithmetic;
* `Exec.carries_mov`, `Exec.carries_push`, `Exec.carries_pop`, … — moves and the stack.
-/

/-! ### Flags of results -/

namespace Flags

/-- The flags that arithmetic writes, except for the adjust flag. -/
def withoutAdjust : Flags := { status with adjust := false }

/-- The flags that arithmetic writes, except for the carry flag. -/
def withoutCarry : Flags := { status with carry := false }

/-- The carry and the overflow flag. -/
def carryOverflow : Flags := { empty with carry := true, overflow := true }

variable (f : Flags) (w : Width) (a b : UInt64)

/-- Sums set the status flags. -/
theorem sameOutside_addFlags (c : Bool) : status.SameOutside f (addFlags f w a b c).2 := by
  constructor <;> simp [status, addFlags, ofResult, withCarryOverflow]

/-- Differences set the status flags. -/
theorem sameOutside_subFlags (c : Bool) : status.SameOutside f (subFlags f w a b c).2 := by
  constructor <;> simp [status, subFlags, ofResult, withCarryOverflow]

/-- Logic sets all status flags but the adjust flag. -/
theorem sameOutside_logicFlags : withoutAdjust.SameOutside f (logicFlags f w a).2 := by
  constructor <;> simp [withoutAdjust, status, logicFlags, ofResult, withCarryOverflow]

/-- Increments keep the carry flag. -/
theorem sameOutside_incFlags : withoutCarry.SameOutside f (incFlags f w a).2 := by
  constructor <;> simp [withoutCarry, status, incFlags, addFlags, ofResult, withCarryOverflow]

/-- Decrements keep the carry flag. -/
theorem sameOutside_decFlags : withoutCarry.SameOutside f (decFlags f w a).2 := by
  constructor <;> simp [withoutCarry, status, decFlags, subFlags, ofResult, withCarryOverflow]

/-- Products set two flags. -/
theorem sameOutside_withCarryOverflow (carry overflow : Bool) :
    carryOverflow.SameOutside f (f.withCarryOverflow carry overflow) := by
  constructor <;> simp [carryOverflow, empty, withCarryOverflow]

end Flags

/-- The flags that an operation writes. -/
def ArithOp.flagEffect : ArithOp → Flags
  | add | adc | sub | sbb => .status
  | and | or | xor => .withoutAdjust

/-- The flags that a shift writes unless its count is zero. -/
def ShiftOp.flagEffect : ShiftOp → Flags
  | rol | ror => .carryOverflow
  | shl | shr | sar => .withoutAdjust

/-- The flag that an instruction changes. -/
def FlagOp.flagEffect : FlagOp → Flags
  | clc | stc | cmc => { Flags.empty with carry := true }
  | cld | std => { Flags.empty with direction := true }

/-- Arithmetic sets the flags of its effect. -/
theorem ArithOp.sameOutside_apply (op : ArithOp) (f : Flags) (w : Width) (a b : UInt64) :
    op.flagEffect.SameOutside f (op.apply f w a b).2 := by
  cases op with
  | add => exact f.sameOutside_addFlags w a b false
  | adc => exact f.sameOutside_addFlags w a b f.carry
  | sub => exact f.sameOutside_subFlags w a b false
  | sbb => exact f.sameOutside_subFlags w a b f.carry
  | and => exact f.sameOutside_logicFlags w (a &&& b)
  | or => exact f.sameOutside_logicFlags w (a ||| b)
  | xor => exact f.sameOutside_logicFlags w (a ^^^ b)

/-- Shifts set the flags of their effect, and none with a count of zero. -/
theorem ShiftOp.sameOutside_shiftFlags (op : ShiftOp) (f : Flags) (w : Width) (v : UInt64) (n : Nat) :
    op.flagEffect.SameOutside f (shiftFlags op f w v n).2 := by
  cases op with
  | rol | ror => exact f.sameOutside_withCarryOverflow _ _
  | shl | shr | sar =>
    constructor <;> simp [flagEffect, Flags.withoutAdjust, Flags.status, shiftFlags, Flags.ofResult,
      Flags.withCarryOverflow]

namespace Exec

variable {σ : Type} [Bus σ] {log : σ → List Attempt} (hlog : Bus.Logs log)
  {A : Access → UInt64 → Prop} {s : Cpu} {gs : List Gpr} {mask : Flags} {e : Effect} {dst src : Location}

/-! ### Integer instructions -/

section
variable (hdst : ∀ k, dst.Within k A s) (hgs : ∀ g ∈ dst.gprs, g ∈ gs) (w : Width)

include hlog hdst hgs

/-- A result is written before its flags are. -/
theorem carries_result (v : UInt64) {f : Flags} (hf : mask.SameOutside s.flags f) :
    Carries log A s.Agrees (s.ChangesOnly ⟨gs, mask⟩)
      (do dst.write w v; setFlags f : Exec σ Unit) :=
  (Location.carries_write hlog (hdst .write) (e := ⟨gs, .empty⟩) hgs w v).bind fun _ =>
    carries_setFlags hf

/-- An operand that is read and written changes with the flags of the function. -/
theorem carries_update {f : Flags → UInt64 → UInt64 × Flags}
    (hf : ∀ a, mask.SameOutside s.flags (f s.flags a).2) :
    Carries log A s.Agrees (s.ChangesOnly ⟨gs, mask⟩) (update dst w f : Exec σ Unit) := by
  refine (Location.carries_read hlog (hdst .read) w).bind fun a => carries_cpu fun t ht => ?_
  rw [← ht.flags]
  exact carries_result hlog hdst hgs w _ (hf a)

/-- A complement changes its operand and no flag. -/
theorem carries_complement :
    Carries log A s.Agrees (s.ChangesOnly ⟨gs, mask⟩) (complement dst w : Exec σ Unit) :=
  (Location.carries_read hlog (hdst .read) w).bind fun _ =>
    Location.carries_write hlog (hdst .write) (e := ⟨gs, mask⟩) hgs w _

/-- Arithmetic changes its destination and flags. -/
theorem carries_arith (hsrc : src.Within .read A s) (op : ArithOp) :
    Carries log A s.Agrees (s.ChangesOnly ⟨gs, op.flagEffect⟩) (arith op dst src w : Exec σ Unit) := by
  refine (Location.carries_read hlog (hdst .read) w).bind fun a =>
    (Location.carries_read hlog hsrc w).bind fun b => carries_cpu fun t ht => ?_
  rw [← ht.flags]
  exact carries_result hlog hdst hgs w _ (op.sameOutside_apply s.flags w a b)

end

section
variable (hdst : dst.Within .read A s) (w : Width) (hsrc : src.Within .read A s)

include hlog hdst hsrc

/-- A comparison changes flags only. -/
theorem carries_cmp :
    Carries log A s.Agrees (s.ChangesOnly ⟨gs, .status⟩) (cmp dst src w : Exec σ Unit) := by
  refine (Location.carries_read hlog hdst w).bind fun a =>
    (Location.carries_read hlog hsrc w).bind fun b => carries_cpu fun t ht => ?_
  rw [← ht.flags]
  exact (carries_setFlags (s.flags.sameOutside_subFlags w a b false)).ofAgrees

/-- A test changes flags only. -/
theorem carries_test :
    Carries log A s.Agrees (s.ChangesOnly ⟨gs, .withoutAdjust⟩) (test dst src w : Exec σ Unit) := by
  refine (Location.carries_read hlog hdst w).bind fun a =>
    (Location.carries_read hlog hsrc w).bind fun b => carries_cpu fun t ht => ?_
  rw [← ht.flags]
  exact (carries_setFlags (s.flags.sameOutside_logicFlags w (a &&& b))).ofAgrees

end

omit [Bus σ] in
/-- The pair of results of an operation on the double-width accumulator. -/
theorem carries_writePair {w : Width} (hrax : .rax ∈ e.gprs) (hrdx : .rdx ∈ e.gprs)
    (low high : UInt64) :
    Carries log A (s.ChangesOnly e) (s.ChangesOnly e) (writePair w low high : Exec σ Unit) := by
  unfold writePair
  split
  · exact carries_writeReg hrax _
  · exact (carries_writeReg hrax _).bind fun _ => carries_writeReg hrdx _

section
variable (hsrc : src.Within .read A s) (w : Width)

include hlog hsrc

/-- A product goes to the accumulator and the data register. -/
theorem carries_multiply (product : Width → UInt64 → UInt64 → Product) :
    Carries log A s.Agrees (s.ChangesOnly ⟨[.rax, .rdx], .carryOverflow⟩)
      (multiply product src w : Exec σ Unit) := by
  refine (Location.carries_read hlog hsrc w).bind fun b => carries_cpu fun t ht => ?_
  rw [← ht.flags]
  exact ((carries_writePair (by simp) (by simp) _ _).ofAgrees).bind fun _ =>
    carries_setFlags (s.flags.sameOutside_withCarryOverflow _ _)

/-- A division changes these two registers and no flag. -/
theorem carries_divide (quotient : Width → UInt64 → UInt64 → UInt64 → Option (UInt64 × UInt64)) :
    Carries log A s.Agrees (s.ChangesOnly ⟨[.rax, .rdx], .empty⟩)
      (divide quotient src w : Exec σ Unit) := by
  refine (Location.carries_read hlog hsrc w).bind fun d => carries_cpu fun t ht => ?_
  split
  · exact carries_throw _
  · exact (carries_writePair (by simp) (by simp) _ _).ofAgrees

/-- The product of two operands goes to one register. -/
theorem carries_imul {dst : Reg} (hdst : dst.gpr ∈ gs) (imm : Option UInt64) :
    Carries log A s.Agrees (s.ChangesOnly ⟨gs, .carryOverflow⟩) (imul dst src imm w : Exec σ Unit) := by
  refine (Location.carries_read hlog hsrc w).bind fun b => carries_cpu fun t ht => ?_
  rw [← ht.flags]
  exact ((carries_writeReg hdst _).ofAgrees).bind fun _ =>
    carries_setFlags (s.flags.sameOutside_withCarryOverflow _ _)

end

include hlog in
/-- A count of which no bit counts writes the operand back and no flags. -/
theorem carries_shift (hdst : ∀ k, dst.Within k A s) (hgs : ∀ g ∈ dst.gprs, g ∈ gs) (w : Width)
    (op : ShiftOp) (count : ShiftCount) :
    Carries log A s.Agrees
      (s.ChangesOnly ⟨gs, if count.given s % (if w = .w64 then 64 else 32) = 0 then .empty else op.flagEffect⟩)
      (shift op dst count w : Exec σ Unit) := by
  refine carries_cpu fun t ht => ?_
  have hcount : rawCount t count = rawCount s count := by
    cases count with
    | imm n => rfl
    | cl => rw [rawCount, rawCount, ht.readReg]
  rw [hcount, rawCount_eq_given, maskedCount]
  refine carries_update hlog hdst hgs w fun a => ?_
  generalize count.given s % (if w = .w64 then 64 else 32) = n
  by_cases hn : n = 0
  · rw [if_pos hn, if_pos hn]
    exact Flags.sameOutside_refl _ _
  · rw [if_neg hn, if_neg hn]
    exact op.sameOutside_shiftFlags s.flags w a n

omit [Bus σ] in
/-- An instruction for single flags changes them only. -/
theorem carries_flag (op : FlagOp) :
    Carries log A s.Agrees (s.ChangesOnly ⟨gs, op.flagEffect⟩) (flag op : Exec σ Unit) := by
  refine carries_cpu fun t ht => ?_
  rw [← ht.flags]
  refine (carries_setFlags ?_).ofAgrees
  cases op <;> constructor <;> simp [FlagOp.flagEffect, Flags.empty]

/-! ### Moves and the stack -/

section
variable (hsrc : src.Within .read A s) (w : Width)

include hlog hsrc

/-- A move changes its destination. -/
theorem carries_mov (hdst : dst.Within .write A s) (hgs : ∀ g ∈ dst.gprs, g ∈ gs) :
    Carries log A s.Agrees (s.ChangesOnly ⟨gs, mask⟩) (mov dst src w : Exec σ Unit) :=
  (Location.carries_read hlog hsrc w).bind fun _ =>
    Location.carries_write hlog hdst (e := ⟨gs, mask⟩) hgs w _

/-- A move with zeros changes its register. -/
theorem carries_movzx {r : Reg} (hr : r.gpr ∈ gs) :
    Carries log A s.Agrees (s.ChangesOnly ⟨gs, mask⟩) (movzx r src w : Exec σ Unit) :=
  (Location.carries_read hlog hsrc w).bind fun _ =>
    (carries_writeReg hr _).ofAgrees

/-- A move with the sign changes its register. -/
theorem carries_movsx {r : Reg} (hr : r.gpr ∈ gs) :
    Carries log A s.Agrees (s.ChangesOnly ⟨gs, mask⟩) (movsx r src w : Exec σ Unit) :=
  (Location.carries_read hlog hsrc w).bind fun _ =>
    (carries_writeReg hr _).ofAgrees

/-- A conditional move changes its register, whether or not the condition holds. -/
theorem carries_cmovcc (cond : Condition) {r : Reg} (hr : r.gpr ∈ gs) :
    Carries log A s.Agrees (s.ChangesOnly ⟨gs, mask⟩) (cmovcc cond r src w : Exec σ Unit) :=
  (Location.carries_read hlog hsrc w).bind fun _ => carries_cpu fun _ _ =>
    (carries_writeReg hr _).ofAgrees

end

omit [Bus σ] in
/-- Computing an address makes no access. -/
theorem carries_lea {r : Reg} (hr : r.gpr ∈ gs) :
    Carries log A s.Agrees (s.ChangesOnly ⟨gs, mask⟩) (lea r src : Exec σ Unit) := by
  unfold lea
  split
  · exact carries_cpu fun _ _ => (carries_writeReg hr _).ofAgrees
  · exact carries_invalidOpcode

include hlog in
/-- A condition is written to its destination. -/
theorem carries_setcc (hdst : dst.Within .write A s) (hgs : ∀ g ∈ dst.gprs, g ∈ gs) (cond : Condition) :
    Carries log A s.Agrees (s.ChangesOnly ⟨gs, mask⟩) (setcc cond dst : Exec σ Unit) :=
  carries_cpu fun _ _ => Location.carries_write hlog hdst (e := ⟨gs, mask⟩) hgs .w8 _

include hlog in
/-- The operand that is written second is found where it was: if the first one is a register, the second one is
    a register too. -/
theorem carries_xchg (hdst : ∀ k, dst.Within k A s) (hsrc : ∀ k, src.Within k A s)
    (hgd : ∀ g ∈ dst.gprs, g ∈ gs) (hgs : ∀ g ∈ src.gprs, g ∈ gs) (w : Width) :
    Carries log A s.Agrees (s.ChangesOnly ⟨gs, mask⟩) (xchg dst src w : Exec σ Unit) := by
  refine (Location.carries_read hlog (hdst .read) w).bind fun x =>
    (Location.carries_read hlog (hsrc .read) w).bind fun y => ?_
  cases hmem : src.isMem with
  | true =>
    exact (Location.carries_write_mem hlog (hsrc .write) hmem w x).bind fun _ =>
      Location.carries_write hlog (hdst .write) hgd w y
  | false =>
    exact (Location.carries_write hlog (hdst .write) hgd w y).bind fun _ =>
      Location.carries_write_reg hmem hgs w x

include hlog in
/-- A push writes below the stack pointer, which it moves. -/
theorem carries_pushValue {w : Width} (ha : A .write (s.gpr .rsp - UInt64.ofNat w.bytes))
    (hrsp : .rsp ∈ gs) (v : UInt64) :
    Carries log A s.Agrees (s.ChangesOnly ⟨gs, mask⟩) (pushValue w v : Exec σ Unit) := by
  refine carries_cpu fun t ht => ?_
  rw [← ht.gpr]
  exact (carries_writeWord hlog ha w v).bind fun _ =>
    (carries_setGpr hrsp _).ofAgrees

include hlog in
/-- Where the stack pointer is after a value was taken off the stack. -/
theorem carries_popValue (ha : A .read (s.gpr .rsp)) (w : Width) :
    Carries log A s.Agrees (s.setGpr .rsp (s.gpr .rsp + UInt64.ofNat w.bytes)).Agrees
      (popValue w : Exec σ UInt64) := by
  refine carries_cpu fun t ht => ?_
  rw [← ht.gpr]
  refine (carries_readWord hlog ha w).bind fun v => Carries.bind ?_ fun _ =>
    carries_pure (fun _ hu => hu) v
  refine carries_modifyCpu (f := (·.setGpr .rsp _)) fun u hu => ?_
  refine ⟨?_, hu.rip, hu.flags, hu.fsBase, hu.gsBase⟩
  rw [Cpu.setGpr, Cpu.setGpr, hu.gprs]

include hlog in
/-- The operand of a push is read before the stack pointer moves. -/
theorem carries_push (hsrc : src.Within .read A s) {w : Width}
    (ha : A .write (s.gpr .rsp - UInt64.ofNat w.bytes)) (hrsp : .rsp ∈ gs) :
    Carries log A s.Agrees (s.ChangesOnly ⟨gs, mask⟩) (push src w : Exec σ Unit) :=
  (Location.carries_read hlog hsrc w).bind fun v => carries_pushValue hlog ha hrsp v

include hlog in
/-- The destination of a pop is found with the stack pointer that has moved already. -/
theorem carries_pop (ha : A .read (s.gpr .rsp)) {w : Width}
    (hdst : dst.Within .write A (s.setGpr .rsp (s.gpr .rsp + UInt64.ofNat w.bytes)))
    (hgs : ∀ g ∈ dst.gprs, g ∈ gs) (hrsp : .rsp ∈ gs) :
    Carries log A s.Agrees (s.ChangesOnly ⟨gs, mask⟩) (pop dst w : Exec σ Unit) := by
  have hmoved : s.ChangesOnly ⟨gs, mask⟩ (s.setGpr .rsp (s.gpr .rsp + UInt64.ofNat w.bytes)) :=
    s.agrees_refl.changesOnly.setGpr hrsp _
  refine carries_cpu fun t ht => (carries_popValue hlog ha w).bind fun v => Carries.tryCatch ?_ fun f => ?_
  · exact (Location.carries_write hlog hdst (e := ⟨gs, mask⟩) hgs w v).post fun _ hu => hmoved.trans hu
  · -- the handler fails in any case
    exact (carries_modifyCpu (Q := fun _ => True) fun _ _ => trivial).bind fun _ => carries_throw f

omit [Bus σ] in
/-- The accumulator is extended in place. -/
theorem carries_extendAcc (hrax : .rax ∈ gs) (w : Width) :
    Carries log A s.Agrees (s.ChangesOnly ⟨gs, mask⟩) (extendAcc w : Exec σ Unit) :=
  carries_cpu fun _ _ => (carries_writeReg hrax _).ofAgrees

omit [Bus σ] in
/-- The data register is filled with the sign. -/
theorem carries_fillData (hrdx : .rdx ∈ gs) (w : Width) :
    Carries log A s.Agrees (s.ChangesOnly ⟨gs, mask⟩) (fillData w : Exec σ Unit) :=
  carries_cpu fun _ _ => (carries_writeReg hrdx _).ofAgrees

end Exec

end Amd64
