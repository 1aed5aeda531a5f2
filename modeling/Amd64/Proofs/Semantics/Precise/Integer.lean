import Amd64.Proofs.Semantics.Precise.Basic
import Amd64.Proofs.Semantics.Integer
import Amd64.Semantics.Instruction

namespace Amd64

/-!
# Precise integer instructions and routines

Most instructions have their parts in the order that makes them precise.

* `Exec.precise_xchg`      — an exchange writes twice, but only its first write may fail;
* `Exec.precise_pop`       — a handler moves the stack pointer back;
* `Exec.keeps_cpu_routine` — a routine leaves the registers until it is over.
-/

namespace Exec

/-! ### Integer instructions -/

section
variable {γ : Type} {view : Machine Memory → γ} (dst src : Location) (w : Width)

/-- An operand is written before the flags, and flags do not fail. -/
theorem precise_update (f : Flags → UInt64 → UInt64 × Flags) :
    Precise view (update dst w f : Exec Memory Unit) :=
  (dst.keeps_read w).precise_bind fun _ => keeps_cpu.precise_bind fun _ =>
    (dst.precise_write w _).bind_total fun _ => faultsIn_modifyCpu _

/-- Arithmetic reads, then writes once. -/
theorem precise_arith (op : ArithOp) : Precise view (arith op dst src w : Exec Memory Unit) :=
  (dst.keeps_read w).precise_bind fun _ => (src.keeps_read w).precise_bind fun _ =>
    keeps_cpu.precise_bind fun _ => (dst.precise_write w _).bind_total fun _ => faultsIn_modifyCpu _

/-- A comparison reads, then sets flags. -/
theorem precise_cmp : Precise view (cmp dst src w : Exec Memory Unit) :=
  (dst.keeps_read w).precise_bind fun _ => (src.keeps_read w).precise_bind fun _ =>
    keeps_cpu.precise_bind fun _ => Total.precise (faultsIn_modifyCpu _)

/-- A test reads, then sets flags. -/
theorem precise_test : Precise view (test dst src w : Exec Memory Unit) :=
  (dst.keeps_read w).precise_bind fun _ => (src.keeps_read w).precise_bind fun _ =>
    keeps_cpu.precise_bind fun _ => Total.precise (faultsIn_modifyCpu _)

/-- A complement reads, then writes once. -/
theorem precise_complement : Precise view (complement dst w : Exec Memory Unit) :=
  (dst.keeps_read w).precise_bind fun _ => dst.precise_write w _

/-- A product reads, then writes registers. -/
theorem precise_multiply (product : Width → UInt64 → UInt64 → Product) :
    Precise view (multiply product src w : Exec Memory Unit) :=
  (src.keeps_read w).precise_bind fun _ => keeps_cpu.precise_bind fun _ =>
    Total.precise ((faultsIn_writePair _ _).bind fun _ => faultsIn_modifyCpu _)

/-- Whether there is a quotient is known before anything is written. -/
theorem precise_divide
    (quotient : Width → UInt64 → UInt64 → UInt64 → Option (UInt64 × UInt64)) :
    Precise view (divide quotient src w : Exec Memory Unit) := by
  refine (src.keeps_read w).precise_bind fun d => keeps_cpu.precise_bind fun s => ?_
  split
  · exact (keeps_throw _).precise
  · exact Total.precise (faultsIn_writePair _ _)

/-- A division faults before it writes a register. -/
theorem precise_mulDiv (op : MulDivOp) : Precise view (mulDiv op src w : Exec Memory Unit) := by
  cases op with
  | mul => exact precise_multiply src w mulWide
  | imul => exact precise_multiply src w imulWide
  | div => exact precise_divide src w divWide?
  | idiv => exact precise_divide src w idivWide?

/-- A product of two operands reads, then writes a register. -/
theorem precise_imul (r : Reg) (imm : Option UInt64) :
    Precise view (imul r src imm w : Exec Memory Unit) :=
  (src.keeps_read w).precise_bind fun _ => keeps_cpu.precise_bind fun _ =>
    Total.precise ((faultsIn_modifyCpu _).bind fun _ => faultsIn_modifyCpu _)

/-- A shift reads, then writes once. -/
theorem precise_shift (op : ShiftOp) (count : ShiftCount) :
    Precise view (shift op dst count w : Exec Memory Unit) :=
  keeps_cpu.precise_bind fun _ => precise_update dst w _

/-! ### Moves and the stack -/

/-- A move reads, then writes once. -/
theorem precise_mov : Precise view (mov dst src w : Exec Memory Unit) :=
  (src.keeps_read w).precise_bind fun _ => dst.precise_write w _

/-- A move with zeros reads, then writes a register. -/
theorem precise_movzx (r : Reg) : Precise view (movzx r src w : Exec Memory Unit) :=
  (src.keeps_read w).precise_bind fun _ => Total.precise (faultsIn_modifyCpu _)

/-- A move with the sign reads, then writes a register. -/
theorem precise_movsx (r : Reg) : Precise view (movsx r src w : Exec Memory Unit) :=
  (src.keeps_read w).precise_bind fun _ => Total.precise (faultsIn_modifyCpu _)

/-- An address is computed, then written to a register. -/
theorem precise_lea (r : Reg) : Precise view (lea r src : Exec Memory Unit) := by
  unfold lea
  split
  · exact keeps_cpu.precise_bind fun _ => Total.precise (faultsIn_modifyCpu _)
  · exact keeps_invalidOpcode.precise

/-- Of the two writes only the first may fail, since memory is written first. -/
theorem precise_xchg {a b : Operand} {w : Width} (ha : a.Target w) (hb : b.Target w)
    (hmem : a.isMem = false ∨ b.isMem = false) (next : UInt64) :
    Precise view (xchg (a.bind next) (b.bind next) w : Exec Memory Unit) := by
  refine ((a.bind next).keeps_read w).precise_bind fun x =>
    ((b.bind next).keeps_read w).precise_bind fun y => ?_
  rw [Operand.isMem_bind]
  split
  · next hb' =>
    have ha' : a.isMem = false := hmem.resolve_right (by simp [hb'])
    exact ((b.bind next).precise_write w x).bind_total fun _ => ha.total_write ha' next y
  · next hb' =>
    have hb' : b.isMem = false := Bool.eq_false_iff.mpr hb'
    exact ((a.bind next).precise_write w y).bind_total fun _ => hb.total_write hb' next x

/-- A push writes before it moves the stack pointer. -/
theorem precise_pushValue (v : UInt64) : Precise view (pushValue w v : Exec Memory Unit) :=
  keeps_cpu.precise_bind fun _ => (precise_store true _ _).bind_total fun _ => faultsIn_modifyCpu _

/-- A push reads its operand, then writes. -/
theorem precise_push : Precise view (push src w : Exec Memory Unit) :=
  (src.keeps_read w).precise_bind fun _ => precise_pushValue w _

/-- A pop from the stack reads one word and moves the stack pointer, or it faults. -/
theorem outcome_popValue (m : Machine Memory) :
    outcome (popValue w) m =
      match m.bus.readWord w (m.cpu.gpr .rsp) with
      | .ok v =>
        (.ok v, ⟨m.cpu.setGpr .rsp (m.cpu.gpr .rsp + UInt64.ofNat w.bytes), m.bus⟩)
      | .error e => (.error (.memory e), m) := by
  have hread : outcome (Bus.readWord w (m.cpu.gpr .rsp) : BusM Memory UInt64) m.bus =
      (m.bus.readWord w (m.cpu.gpr .rsp), m.bus) := rfl
  simp only [popValue, outcome_bind, outcome_cpu, outcome_access, hread]
  cases m.bus.readWord w (m.cpu.gpr .rsp) with
  | error e => rfl
  | ok v => rfl

/-- A pop from the stack moves the stack pointer behind the read. -/
theorem precise_popValue : Precise view (popValue w : Exec Memory UInt64) :=
  keeps_cpu.precise_bind fun _ => (keeps_ask _).precise.bind_total fun _ =>
    (faultsIn_modifyCpu _).bind fun _ => faultsIn_pure _

/-- The stack pointer has moved when the write fails, and the handler moves it back. -/
theorem precise_pop : Precise view (pop dst w : Exec Memory Unit) := by
  intro m f hf
  simp only [pop, outcome_bind, outcome_cpu, outcome_popValue] at hf ⊢
  generalize m.bus.readWord w (m.cpu.gpr .rsp) = top at hf ⊢
  cases top with
  | error e => rfl
  | ok v =>
    simp only [outcome_tryCatch] at hf ⊢
    have hwrite : Precise id (dst.write w v : Exec Memory Unit) := dst.precise_write w v
    have hmoved := hwrite ⟨m.cpu.setGpr .rsp (m.cpu.gpr .rsp + UInt64.ofNat w.bytes), m.bus⟩
    generalize outcome (dst.write w v : Exec Memory Unit) _ = p at hf hmoved ⊢
    obtain ⟨r, m'⟩ := p
    cases r with
    | ok _ => exact nomatch hf
    | error e =>
      obtain rfl : m' = ⟨m.cpu.setGpr .rsp (m.cpu.gpr .rsp + UInt64.ofNat w.bytes), m.bus⟩ :=
        hmoved e rfl
      show view ⟨(m.cpu.setGpr .rsp _).setGpr .rsp (m.cpu.gpr .rsp), m.bus⟩ = view m
      rw [Cpu.setGpr_setGpr_gpr]

/-- A condition is written once. -/
theorem precise_setcc (cond : Condition) : Precise view (setcc cond dst : Exec Memory Unit) :=
  keeps_cpu.precise_bind fun _ => dst.precise_write .w8 _

/-- A conditional move reads, then writes a register. -/
theorem precise_cmovcc (cond : Condition) (r : Reg) :
    Precise view (cmovcc cond r src w : Exec Memory Unit) :=
  (src.keeps_read w).precise_bind fun _ => keeps_cpu.precise_bind fun _ =>
    Total.precise (faultsIn_modifyCpu _)

/-- A call writes its return address before anything else changes. -/
theorem precise_callTo (returnAddress target : UInt64) :
    Precise view (callTo returnAddress target : Exec Memory Outcome) :=
  (precise_pushValue .w64 _).bind_total fun _ => faultsIn_pure _

/-- A return reads its target before anything else changes. -/
theorem precise_returnFrom (count : UInt16) :
    Precise view (returnFrom count : Exec Memory Outcome) :=
  (precise_popValue .w64).bind_total fun _ => faultsIn_cpu.bind fun _ =>
    (faultsIn_modifyCpu _).bind fun _ => faultsIn_pure _

/-- Pointers move after all accesses succeeded. -/
theorem precise_stringStep (op : StringOp) (narrow : Bool) :
    Precise view (stringStep op w narrow : Exec Memory Unit) := by
  have hadvance : ∀ r, (advance r w : Exec Memory Unit).Total := fun r => faultsIn_advance r w
  have hcompare : ∀ a b, (compareElements w a b : Exec Memory Unit).Total := fun _ _ =>
    faultsIn_cpu.bind fun _ => faultsIn_modifyCpu _
  refine keeps_cpu.precise_bind fun s => ?_
  cases op with
  | movs =>
    exact (keeps_ask _).precise_bind fun _ => (precise_store true _ _).bind_total fun _ =>
      (hadvance _).bind fun _ => hadvance _
  | stos => exact (precise_store true _ _).bind_total fun _ => hadvance _
  | lods =>
    exact (keeps_ask _).precise.bind_total fun _ => (faultsIn_modifyCpu _).bind fun _ => hadvance _
  | cmps =>
    exact (keeps_ask _).precise_bind fun _ => (keeps_ask _).precise.bind_total fun _ =>
      (hcompare _ _).bind fun _ => (hadvance _).bind fun _ => hadvance _
  | scas =>
    exact (keeps_ask _).precise.bind_total fun _ => (hcompare _ _).bind fun _ => hadvance _

end

/-! ### Routines -/

section
variable {γ : Type} {view : Machine Memory → γ}

/-- A search leaves everything. -/
theorem keeps_scanFor (stop : UInt8 → Bool) (n : Nat) (a : UInt64) :
    Keeps view (scanFor stop n a : Exec Memory UInt64) := by
  induction n generalizing a with
  | zero => exact keeps_throw _
  | succ n ih =>
    exact (keeps_ask _).bind fun b => Keeps.ite (keeps_pure a) (ih (a + 1))

/-- Copying leaves the registers, however far it comes. -/
theorem keeps_copyBytes (dst src : UInt64) (n : Nat) :
    Keeps Machine.cpu (copyBytes dst src n : Exec Memory Unit) := by
  induction n using Nat.strongRecOn generalizing dst src with
  | ind n ih =>
    unfold copyBytes
    by_cases hn : n = 0
    · rw [if_pos hn]
      exact keeps_pure ()
    · rw [if_neg hn]
      refine (keeps_ask _).bind fun bs => (keeps_access _).bind fun _ => ih _ ?_ _ _
      simp only [chunkSize]
      omega

/-- A fill leaves the registers. -/
theorem keeps_fillBytes (dst : UInt64) (b : UInt8) (n : Nat) :
    Keeps Machine.cpu (fillBytes dst b n : Exec Memory Unit) := by
  induction n using Nat.strongRecOn generalizing dst with
  | ind n ih =>
    unfold fillBytes
    by_cases hn : n = 0
    · rw [if_pos hn]
      exact keeps_pure ()
    · rw [if_neg hn]
      refine (keeps_access _).bind fun _ => ih _ ?_ _
      simp only [chunkSize]
      omega

/-- The routines that look for a byte leave memory as well. -/
theorem keeps_routine (id : Intrinsic) (s : Cpu) (hid : id ≠ .memcpy ∧ id ≠ .memset) :
    Keeps view (routine id s : Exec Memory UInt64) := by
  cases id with
  | strlen => exact (keeps_scanFor _ _ _).bind fun _ => keeps_pure _
  | strchrnul => exact keeps_scanFor _ _ _
  | memcpy => exact absurd rfl hid.1
  | memset => exact absurd rfl hid.2

/-- A routine leaves the registers, whatever it does to memory. -/
theorem keeps_cpu_routine (id : Intrinsic) (s : Cpu) :
    Keeps Machine.cpu (routine id s : Exec Memory UInt64) := by
  cases id with
  | strlen => exact keeps_routine .strlen s (by decide)
  | strchrnul => exact keeps_routine .strchrnul s (by decide)
  | memcpy => exact (keeps_copyBytes _ _ _).bind fun _ => keeps_pure _
  | memset => exact (keeps_fillBytes _ _ _).bind fun _ => keeps_pure _

/-- Registers change when the routine is over and its return address was read. -/
theorem precise_intrinsic (id : Intrinsic)
    (h : ∀ s, Keeps view (routine id s : Exec Memory UInt64)) :
    Precise view (intrinsic id : Exec Memory UInt64) :=
  keeps_cpu.precise_bind fun s => (keeps_ask _).precise_bind fun _ => (h s).precise.bind_total fun _ =>
    (faultsIn_modifyCpu _).bind fun _ => (faultsIn_modifyCpu _).bind fun _ => faultsIn_pure _

end

end Exec

end Amd64
