import Amd64.Proofs.Semantics.Faults
import Amd64.Semantics.Integer
import Amd64.Semantics.Strings
import Amd64.Semantics.Transfer

namespace Amd64

/-!
# Faults of integer instructions

One lemma for each way to execute: with operands that fit, all faults are faults of memory.

* `Exec.faultsIn_divide`       — only a division may end with a division fault besides;
* `Exec.faultsIn_stringRounds` — a repetition has the faults of its rounds.
-/

namespace Exec

open Fault

variable {σ : Type} {dst src : Operand} {w : Width} (next : UInt64)

/-! ### Registers and flags -/

/-- Two registers are written without faults. -/
theorem faultsIn_writePair {P : Fault → Prop} (low high : UInt64) :
    (writePair w low high : Exec σ Unit).FaultsIn P := by
  unfold writePair
  split
  · exact faultsIn_modifyCpu _
  · exact (faultsIn_modifyCpu _).bind fun _ => faultsIn_modifyCpu _

/-- Single flags are written without faults. -/
theorem faultsIn_flag {P : Fault → Prop} (op : FlagOp) : (flag op : Exec σ Unit).FaultsIn P :=
  faultsIn_cpu.bind fun _ => faultsIn_modifyCpu _

/-- An address is computed without an access. -/
theorem faultsIn_lea (r : Reg) (a : Address) :
    (lea r ((Operand.mem a).bind next) : Exec σ Unit).FaultsIn IsMemory :=
  faultsIn_cpu.bind fun _ => faultsIn_modifyCpu _

/-- The accumulator is extended without faults. -/
theorem faultsIn_extendAcc {P : Fault → Prop} (w : Width) :
    (extendAcc w : Exec σ Unit).FaultsIn P :=
  faultsIn_cpu.bind fun _ => faultsIn_modifyCpu _

/-- The data register is filled without faults. -/
theorem faultsIn_fillData {P : Fault → Prop} (w : Width) :
    (fillData w : Exec σ Unit).FaultsIn P :=
  faultsIn_cpu.bind fun _ => faultsIn_modifyCpu _

/-- A pointer is moved without faults. -/
theorem faultsIn_advance {P : Fault → Prop} (pointer : Reg) (w : Width) :
    (advance pointer w : Exec σ Unit).FaultsIn P :=
  faultsIn_cpu.bind fun _ => faultsIn_modifyCpu _

variable [Bus σ]

/-! ### Integer instructions -/

/-- An operand is read and written. -/
theorem faultsIn_update (h : dst.Target w) (f : Flags → UInt64 → UInt64 × Flags) :
    (update (dst.bind next) w f : Exec σ Unit).FaultsIn IsMemory :=
  (h.source.faultsIn_read next).bind fun _ => faultsIn_cpu.bind fun _ =>
    (h.faultsIn_write next _).bind fun _ => faultsIn_modifyCpu _

/-- Arithmetic reads two operands and writes the first one. -/
theorem faultsIn_arith (op : ArithOp) (hd : dst.Target w) (hs : src.Source w) :
    (arith op (dst.bind next) (src.bind next) w : Exec σ Unit).FaultsIn IsMemory :=
  (hd.source.faultsIn_read next).bind fun _ => (hs.faultsIn_read next).bind fun _ =>
    faultsIn_cpu.bind fun _ => (hd.faultsIn_write next _).bind fun _ => faultsIn_modifyCpu _

/-- A comparison reads two operands. -/
theorem faultsIn_cmp (hd : dst.Source w) (hs : src.Source w) :
    (cmp (dst.bind next) (src.bind next) w : Exec σ Unit).FaultsIn IsMemory :=
  (hd.faultsIn_read next).bind fun _ => (hs.faultsIn_read next).bind fun _ =>
    faultsIn_cpu.bind fun _ => faultsIn_modifyCpu _

/-- A test reads two operands. -/
theorem faultsIn_test (hd : dst.Source w) (hs : src.Source w) :
    (test (dst.bind next) (src.bind next) w : Exec σ Unit).FaultsIn IsMemory :=
  (hd.faultsIn_read next).bind fun _ => (hs.faultsIn_read next).bind fun _ =>
    faultsIn_cpu.bind fun _ => faultsIn_modifyCpu _

/-- A complement reads and writes one operand. -/
theorem faultsIn_complement (h : dst.Target w) :
    (complement (dst.bind next) w : Exec σ Unit).FaultsIn IsMemory :=
  (h.source.faultsIn_read next).bind fun _ => h.faultsIn_write next _

/-- A product reads one operand. -/
theorem faultsIn_multiply (product : Width → UInt64 → UInt64 → Product) (h : src.Source w) :
    (multiply product (src.bind next) w : Exec σ Unit).FaultsIn IsMemory :=
  (h.faultsIn_read next).bind fun _ => faultsIn_cpu.bind fun _ =>
    (faultsIn_writePair _ _).bind fun _ => faultsIn_modifyCpu _

/-- A division faults on memory, or because there is no quotient. -/
theorem faultsIn_divide
    (quotient : Width → UInt64 → UInt64 → UInt64 → Option (UInt64 × UInt64)) (h : src.Source w) :
    (divide quotient (src.bind next) w : Exec σ Unit).FaultsIn
      fun f => IsMemory f ∨ ∃ rip, f = .divide rip := by
  refine ((h.faultsIn_read next).mono fun _ => Or.inl).bind fun d => faultsIn_cpu.bind fun s => ?_
  split
  · exact faultsIn_throw (Or.inr ⟨_, rfl⟩)
  · exact faultsIn_writePair _ _

/-- A product with a destination of its own reads one operand. -/
theorem faultsIn_imul (r : Reg) (imm : Option UInt64) (h : src.Source w) :
    (imul r (src.bind next) imm w : Exec σ Unit).FaultsIn IsMemory :=
  (h.faultsIn_read next).bind fun _ => faultsIn_cpu.bind fun _ =>
    (faultsIn_modifyCpu _).bind fun _ => faultsIn_modifyCpu _

/-- A shift reads and writes one operand. -/
theorem faultsIn_shift (op : ShiftOp) (count : ShiftCount) (h : dst.Target w) :
    (shift op (dst.bind next) count w : Exec σ Unit).FaultsIn IsMemory :=
  faultsIn_cpu.bind fun _ => faultsIn_update next h _

/-! ### Moves and the stack -/

/-- A move reads one operand and writes one. -/
theorem faultsIn_mov (hd : dst.Target w) (hs : src.Source w) :
    (mov (dst.bind next) (src.bind next) w : Exec σ Unit).FaultsIn IsMemory :=
  (hs.faultsIn_read next).bind fun _ => hd.faultsIn_write next _

/-- A move with zeros reads one operand. -/
theorem faultsIn_movzx (r : Reg) (h : src.Source w) :
    (movzx r (src.bind next) w : Exec σ Unit).FaultsIn IsMemory :=
  (h.faultsIn_read next).bind fun _ => faultsIn_modifyCpu _

/-- A move with the sign reads one operand. -/
theorem faultsIn_movsx (r : Reg) (h : src.Source w) :
    (movsx r (src.bind next) w : Exec σ Unit).FaultsIn IsMemory :=
  (h.faultsIn_read next).bind fun _ => faultsIn_modifyCpu _

/-- An exchange reads and writes both operands. -/
theorem faultsIn_xchg (hd : dst.Target w) (hs : src.Target w) :
    (xchg (dst.bind next) (src.bind next) w : Exec σ Unit).FaultsIn IsMemory := by
  refine (hd.source.faultsIn_read next).bind fun _ => (hs.source.faultsIn_read next).bind fun _ => ?_
  refine FaultsIn.ite ?_ ?_
  · exact (hs.faultsIn_write next _).bind fun _ => hd.faultsIn_write next _
  · exact (hd.faultsIn_write next _).bind fun _ => hs.faultsIn_write next _

/-- A push writes to the stack. -/
theorem faultsIn_pushValue (w : Width) (v : UInt64) :
    (pushValue w v : Exec σ Unit).FaultsIn IsMemory :=
  faultsIn_cpu.bind fun _ => (faultsIn_access _).bind fun _ => faultsIn_modifyCpu _

/-- A pop reads from the stack. -/
theorem faultsIn_popValue (w : Width) : (popValue w : Exec σ UInt64).FaultsIn IsMemory :=
  faultsIn_cpu.bind fun _ => (faultsIn_access _).bind fun _ =>
    (faultsIn_modifyCpu _).bind fun _ => faultsIn_pure _

/-- The operand of a push is read, then written to the stack. -/
theorem faultsIn_push (h : src.Source w) :
    (push (src.bind next) w : Exec σ Unit).FaultsIn IsMemory :=
  (h.faultsIn_read next).bind fun _ => faultsIn_pushValue _ _

/-- A pop that cannot write its destination has the fault of the write. -/
theorem faultsIn_pop (h : dst.Target w) :
    (pop (dst.bind next) w : Exec σ Unit).FaultsIn IsMemory := by
  refine faultsIn_cpu.bind fun s => (faultsIn_popValue w).bind fun v => ?_
  -- the handler moves the stack pointer back and passes the fault on
  exact (h.faultsIn_write next v).tryCatch fun f hf =>
    (faultsIn_modifyCpu _).bind fun _ => faultsIn_throw hf

/-- A condition is written to a byte. -/
theorem faultsIn_setcc (cond : Condition) (h : dst.Target .w8) :
    (setcc cond (dst.bind next) : Exec σ Unit).FaultsIn IsMemory :=
  faultsIn_cpu.bind fun _ => h.faultsIn_write next _

/-- The source is read whether or not the condition holds. -/
theorem faultsIn_cmovcc (cond : Condition) (r : Reg) (h : src.Source w) :
    (cmovcc cond r (src.bind next) w : Exec σ Unit).FaultsIn IsMemory :=
  (h.faultsIn_read next).bind fun _ => faultsIn_cpu.bind fun _ => faultsIn_modifyCpu _

/-! ### String instructions -/

/-- One round of a string instruction makes one or two accesses. -/
theorem faultsIn_stringStep (op : StringOp) (w : Width) (narrow : Bool) :
    (stringStep op w narrow : Exec σ Unit).FaultsIn IsMemory := by
  have hcompare : ∀ a b, (compareElements w a b : Exec σ Unit).FaultsIn IsMemory := fun _ _ =>
    faultsIn_cpu.bind fun _ => faultsIn_modifyCpu _
  refine faultsIn_cpu.bind fun s => ?_
  cases op with
  | movs =>
    exact (faultsIn_access _).bind fun _ => (faultsIn_access _).bind fun _ =>
      (faultsIn_advance _ w).bind fun _ => faultsIn_advance _ w
  | stos => exact (faultsIn_access _).bind fun _ => faultsIn_advance _ w
  | lods =>
    exact (faultsIn_access _).bind fun _ => (faultsIn_modifyCpu _).bind fun _ => faultsIn_advance _ w
  | cmps =>
    exact (faultsIn_access _).bind fun _ => (faultsIn_access _).bind fun _ =>
      (hcompare _ _).bind fun _ => (faultsIn_advance _ w).bind fun _ => faultsIn_advance _ w
  | scas =>
    exact (faultsIn_access _).bind fun _ => (hcompare _ _).bind fun _ => faultsIn_advance _ w

/-- However many rounds a repetition has, each of them faults on memory only. -/
theorem faultsIn_stringRounds (op : StringOp) (w : Width) (times : Repeat) (narrow : Bool) (n : Nat) :
    (stringRounds op w times narrow n : Exec σ Unit).FaultsIn IsMemory := by
  -- induction on the rounds that are left; a round is a step, the count, and maybe the other rounds
  induction n with
  | zero => exact faultsIn_pure ()
  | succ n ih =>
    refine (faultsIn_stringStep op w narrow).bind fun _ => ?_
    refine FaultsIn.bind (faultsIn_cpu.bind fun _ => faultsIn_modifyCpu _) fun _ => ?_
    exact faultsIn_cpu.bind fun _ => FaultsIn.ite (faultsIn_pure ()) ih

/-- A string instruction has the faults of its rounds. -/
theorem faultsIn_string (op : StringOp) (w : Width) (times : Repeat) (narrow : Bool) :
    (string op w times narrow : Exec σ Unit).FaultsIn IsMemory := by
  unfold string
  split
  · exact faultsIn_stringStep op w narrow
  · exact faultsIn_cpu.bind fun _ => faultsIn_stringRounds op w times narrow _

end Exec

end Amd64
