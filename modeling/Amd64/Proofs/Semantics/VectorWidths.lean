import Amd64.Proofs.Arithmetic.Integers
import Amd64.Proofs.Decoder.Basic
import Amd64.Proofs.Machine.Binding
import Amd64.Proofs.Machine.Equivalence
import Amd64.Proofs.Machine.Vectors
import Amd64.Proofs.Machine.Views
import Amd64.Proofs.Memory.Pieces
import Amd64.Proofs.Semantics.Precise.Vector

namespace Amd64

/-!
# How far vector writes reach

A write to a vector register replaces its low bits. It keeps what is behind them, or zeroes a part of it or all
of it; which of these depends on the operation and on its encoding.

* `Extent`, `Extent.Between`    — the bits that a write replaces and those that it zeroes;
* `SseOp.extent`, `Operand.registerWrite`, `Operand.vexWrite` — the writes of operations;
* `Extent.between_setXmm`, …    — the extents of the writes to a register;
* `Machine.WritesRegister`      — what a computation did that made one write;
* `Exec.Looks.writes_bind`      — what comes before the write does not count;
* `Exec.writes_sse`, `Exec.writes_vexMove`, `Exec.writes_vexBinary` — the operations, one by one;
* `Exec.writesRegister_sse`, …   — instructions with these operations;
* `Exec.vector_widths`          — what decoded instructions do to the registers.
-/

/-- A write to a vector register: the low `written` bits are replaced and those from there on below `cleared`
    become zero. -/
structure Extent where
  written : Nat
  cleared : Nat

namespace Extent

/-- A write that keeps all bits behind the low `n`. -/
def low (n : Nat) : Extent := ⟨n, n⟩

/-- A write that leaves `n` low bits and zeros up to the end of the first 128 bits. -/
def load (n : Nat) : Extent := ⟨n, 128⟩

/-- A write in the VEX encoding. -/
def vex (size : VecSize) : Extent := ⟨size.bits, 512⟩

/-- A write of this extent may turn `v` into `v'`. -/
structure Between (e : Extent) (v v' : BitVec 512) : Prop where
  zero : ∀ k, e.written ≤ k → k < e.cleared → v'.getLsbD k = false
  kept : ∀ k, e.cleared ≤ k → v'.getLsbD k = v.getLsbD k

end Extent

/-! ### The writes of operations -/

/-- What an operation in the legacy encoding does to a vector register as its destination. Between registers a
    number keeps its neighbours, and a load zeroes them; a comparison writes nothing. -/
def SseOp.extent (src : Operand) : SseOp → Extent
  | .moveScalar p => if src.isMem then .load p.width.bits else .low p.width.bits
  | .movd => .load Width.w32.bits
  | .movq => .load Width.w64.bits
  | .float _ p => .low p.width.bits
  | .ofInteger p _ => .low p.width.bits
  | .widen => .low Precision.double.width.bits
  | .narrow => .low Precision.single.width.bits
  | .compare _ _ => .low 0
  | .movePacked _ | .logic _ | .lanes _ _ | .shiftLanes _ _ | .shiftBytes _ => .low 128
  -- the destination is a general-purpose register
  | .moveMask | .toInteger _ _ => .low 0

/-- The register that an operation writes to, if there is one. -/
inductive RegisterWrite where
  | none
  | general (g : Gpr)
  | vector (v : Fin 16) (e : Extent)

namespace Operand

/-- A write to the operand, of the extent if it is a vector register. -/
def registerWrite (e : Extent) : Operand → RegisterWrite
  | reg r => .general r.gpr
  | vec v => .vector v.index e
  | _ => .none

/-- A write to the operand in the VEX encoding. -/
def vexWrite : Operand → RegisterWrite
  | vec v => .vector v.index (.vex v.size)
  | _ => .none

/-- Only the extent that is asked for is written. -/
theorem eq_of_registerWrite {o : Operand} {e e' : Extent} {v : Fin 16}
    (h : o.registerWrite e = .vector v e') : e' = e := by
  cases o with
  | vec d => exact (RegisterWrite.vector.inj h).2.symm
  | _ => exact nomatch h

end Operand

/-- No write in the legacy encoding reaches behind the low 128 bits. -/
theorem SseOp.cleared_extent_le (op : SseOp) (src : Operand) : (op.extent src).cleared ≤ 128 := by
  have hbits : ∀ p : Precision, p.width.bits ≤ 128 := by
    intro p
    cases p <;> decide
  cases op with
  | moveScalar p =>
    rw [extent]
    split
    · exact Nat.le_refl 128
    · exact hbits p
  | float op p => exact hbits p
  | ofInteger p w => exact hbits p
  | widen => exact hbits .double
  | narrow => exact hbits .single
  | compare | moveMask | toInteger => exact Nat.zero_le 128
  | movePacked | movd | movq | logic | lanes | shiftLanes | shiftBytes => exact Nat.le_refl 128

/-! ### Writes to a register -/

namespace VectorReg

/-- Bits behind those that are replaced. -/
theorem getLsbD_replaceLow {m n k : Nat} (v : BitVec (m + n)) (x : BitVec n) (hk : n ≤ k) :
    (v.extractLsb' n m ++ x).getLsbD k = v.getLsbD k := by
  rw [BitVec.getLsbD_append, if_neg (Nat.not_lt.mpr hk), BitVec.getLsbD_extractLsb', Nat.add_sub_of_le hk]
  by_cases hkm : k < m + n
  · rw [decide_eq_true (show k - n < m by omega), Bool.true_and]
  · rw [BitVec.getLsbD_of_ge _ _ (Nat.not_lt.mp hkm), Bool.and_false]

variable (r : VectorReg) {n k : Nat}

/-- A single-precision number replaces 32 bits. -/
theorem getLsbD_setSingle (x : UInt32) (hk : 32 ≤ k) :
    (r.setSingle x).contents.getLsbD k = r.contents.getLsbD k := by
  rw [contents_setSingle]
  exact getLsbD_replaceLow (m := 480) (n := 32) r.contents x.toBitVec hk

/-- A double-precision number replaces 64 bits. -/
theorem getLsbD_setDouble (x : UInt64) (hk : 64 ≤ k) :
    (r.setDouble x).contents.getLsbD k = r.contents.getLsbD k := by
  rw [contents_setDouble]
  exact getLsbD_replaceLow (m := 448) (n := 64) r.contents x.toBitVec hk

/-- A legacy write replaces 128 bits. -/
theorem getLsbD_setXmm (v : BitVec 128) (hk : 128 ≤ k) :
    (r.setXmm v).contents.getLsbD k = r.contents.getLsbD k := by
  rw [contents_setXmm]
  exact getLsbD_replaceLow (m := 384) (n := 128) r.contents v hk

/-- A number of few bits. -/
theorem getLsbD_setXmm_of_lt {x : UInt64} (hx : x.toNat < 2 ^ n) (hn : n ≤ k) (hk : k < 128) :
    (r.setXmm (x.toBitVec.setWidth 128)).contents.getLsbD k = false := by
  have hbit : x.toBitVec.getLsbD k = false :=
    Nat.testBit_lt_two_pow (Nat.lt_of_lt_of_le hx (Nat.pow_le_pow_right (by decide) hn))
  rw [contents_setXmm, BitVec.getLsbD_append, if_pos hk, BitVec.getLsbD_setWidth, hbit, Bool.and_false]

/-- A vector with zeros behind it. -/
theorem getLsbD_setWidth_of_le (v : BitVec n) (hk : n ≤ k) : (v.setWidth 512).getLsbD k = false := by
  rw [BitVec.getLsbD_setWidth, BitVec.getLsbD_of_ge v k hk, Bool.and_false]

/-- The low bits stay when the others become zero. -/
theorem getLsbD_zeroUpper (hk : k < 128) : r.zeroUpper.contents.getLsbD k = r.contents.getLsbD k := by
  rw [zeroUpper, contents_ofBits, BitVec.getLsbD_setWidth, BitVec.getLsbD_extractLsb', Nat.zero_add,
    decide_eq_true hk, decide_eq_true (Nat.lt_trans hk (by decide)), Bool.true_and, Bool.true_and]

/-- The others do. -/
theorem getLsbD_zeroUpper_of_le (hk : 128 ≤ k) : r.zeroUpper.contents.getLsbD k = false := by
  rw [zeroUpper, contents_ofBits]
  exact getLsbD_setWidth_of_le _ hk

end VectorReg

namespace Extent

open VectorReg

variable (r : VectorReg)

/-- A write that keeps what is behind the low bits need not zero anything. -/
theorem between_low {n : Nat} {v v' : BitVec 512} (h : ∀ k, n ≤ k → v'.getLsbD k = v.getLsbD k) :
    (low n).Between v v' :=
  ⟨fun _ hwritten hcleared => absurd hwritten (Nat.not_le.mpr hcleared), h⟩

/-- A single-precision number keeps its neighbours. -/
theorem between_setSingle (x : UInt32) : (low 32).Between r.contents (r.setSingle x).contents :=
  between_low fun _ hk => r.getLsbD_setSingle x hk

/-- A double-precision number keeps its neighbour and the upper half. -/
theorem between_setDouble (x : UInt64) : (low 64).Between r.contents (r.setDouble x).contents :=
  between_low fun _ hk => r.getLsbD_setDouble x hk

/-- A number keeps what is behind it, whatever its precision. -/
theorem between_setScalar (p : Precision) (x : UInt64) :
    (low p.width.bits).Between r.contents (r.setScalar p x).contents := by
  cases p with
  | single => exact between_setSingle r x.toUInt32
  | double => exact between_setDouble r x

/-- A legacy write keeps the bits from 128 on. -/
theorem between_setXmm (x : BitVec 128) : (low 128).Between r.contents (r.setXmm x).contents :=
  between_low fun _ hk => r.getLsbD_setXmm x hk

/-- A short number is loaded with zeros up to bit 128. -/
theorem between_setXmm_of_lt {n : Nat} {x : UInt64} (hx : x.toNat < 2 ^ n) :
    (load n).Between r.contents (r.setXmm (x.toBitVec.setWidth 128)).contents :=
  ⟨fun _ hn hk => r.getLsbD_setXmm_of_lt hx hn hk, fun _ hk => r.getLsbD_setXmm _ hk⟩

/-- A VEX write zeroes what it does not replace. -/
theorem between_vex (size : VecSize) (v : BitVec 512) (x : BitVec size.bits) :
    (vex size).Between v (x.setWidth 512) :=
  ⟨fun _ hk _ => getLsbD_setWidth_of_le x hk, fun k hk =>
    (BitVec.getLsbD_of_ge _ k hk).trans (BitVec.getLsbD_of_ge v k hk).symm⟩

end Extent

/-- A word that is read has no more bits than were asked for. -/
theorem Memory.toNat_lt_of_readWord {m : Memory} (h : m.table.WellFormed) {w : Width} {a v : UInt64}
    (hv : m.readWord w a = .ok v) : v.toNat < 2 ^ w.bits := by
  obtain ⟨bs, hbs, hvalue⟩ := ((readsNumber_readWord h w a).ok_iff v).mp hv
  rw [hvalue, ← w.modulus_eq_two_pow, w.modulus_eq, ← length_of_load h hbs]
  exact LittleEndian.value_lt _

/-! ### Computations that write to a register -/

namespace Machine

/-- The contents of all registers that operands name. -/
def registers {σ : Type} (m : Machine σ) : (Fin 16 → BitVec 512) × Vector UInt64 16 :=
  (m.vectors, m.cpu.gprs)

/-- What a computation that ended so did to the registers: it made one write, if any. -/
structure WritesRegister {α : Type} (m : Machine Memory) (write : RegisterWrite)
    (r : Except Fault α × Machine Memory) : Prop where
  target : ∀ v e, write = .vector v e → ∀ x, r.1 = .ok x → e.Between (m.vectors v) (r.2.vectors v)
  vectors : ∀ v, (∀ e, write ≠ .vector v e) → r.2.vectors v = m.vectors v
  general : ∀ g, write ≠ .general g → r.2.cpu.gpr g = m.cpu.gpr g
  /-- It did not come to that if it ended with a fault. -/
  fault : ∀ f, r.1 = .error f → r.2.registers = m.registers

variable {α : Type} {m m' : Machine Memory} {write : RegisterWrite} {r : Except Fault α × Machine Memory}

/-- The registers include the vector registers. -/
theorem vectors_of_registers (h : m'.registers = m.registers) : m'.vectors = m.vectors :=
  congrArg Prod.fst h

/-- The registers include the general-purpose ones. -/
theorem gpr_of_registers (h : m'.registers = m.registers) (g : Gpr) : m'.cpu.gpr g = m.cpu.gpr g :=
  congrArg (fun gprs : Vector UInt64 16 => gprs[g.index]) (congrArg Prod.snd h)

/-- Registers are the same if all contents are. -/
theorem registers_of_contents (h : m'.contents = m.contents) : m'.registers = m.registers := by
  have hequivalent := Cpu.equivalent_iff.mpr (congrArg Prod.fst h)
  exact Prod.ext (funext hequivalent.contents) hequivalent.gprs

/-- Nothing is written. -/
theorem writesRegister_of_registers (h : r.2.registers = m.registers)
    (hwrite : ∀ v e x, write = .vector v e → r.1 = .ok x → e = .low 0) : m.WritesRegister write r where
  target v e he x hx := by
    rw [hwrite v e x he hx, vectors_of_registers h]
    exact Extent.between_low fun _ _ => rfl
  vectors v _ := congrFun (vectors_of_registers h) v
  general g _ := gpr_of_registers h g
  fault _ _ := h

/-- What leaves the registers before the write does not count. -/
theorem WritesRegister.of_registers (h : m'.WritesRegister write r) (hsame : m'.registers = m.registers) :
    m.WritesRegister write r where
  target v e he x hx := by
    rw [← vectors_of_registers hsame]
    exact h.target v e he x hx
  vectors v hv := (h.vectors v hv).trans (congrFun (vectors_of_registers hsame) v)
  general g hg := (h.general g hg).trans (gpr_of_registers hsame g)
  fault f hf := (h.fault f hf).trans hsame

/-- Bits that no write reaches. -/
theorem WritesRegister.getLsbD_of_cleared_le (h : m.WritesRegister write r) {k : Nat}
    (hk : ∀ v e, write = .vector v e → e.cleared ≤ k) (v : Fin 16) :
    (r.2.vectors v).getLsbD k = (m.vectors v).getLsbD k := by
  obtain ⟨f | x, m'⟩ := r
  · exact congrArg (fun vectors => (vectors v).getLsbD k) (vectors_of_registers (h.fault f rfl))
  · by_cases hv : ∃ e, write = .vector v e
    · obtain ⟨e, he⟩ := hv
      exact (h.target v e he x rfl).kept k (hk v e he)
    · exact congrArg (·.getLsbD k) (h.vectors v fun e he => hv ⟨e, he⟩)

end Machine

namespace Exec

/-- `x` makes this write, if any. -/
def Writes {α : Type} (write : RegisterWrite) (x : Exec Memory α) : Prop :=
  ∀ m : Machine Memory, m.bus.table.WellFormed → m.WritesRegister write (outcome x m)

/-- `x` does not change what the machine holds, and what it yields has `P`. -/
def Looks {α : Type} (P : α → Prop) (x : Exec Memory α) : Prop :=
  ∀ m : Machine Memory, m.bus.table.WellFormed →
    (outcome x m).2.contents = m.contents ∧ ∀ v, (outcome x m).1 = .ok v → P v

section
variable {α β : Type} {P : α → Prop} {x : Exec Memory α} {f : α → Exec Memory β} {write : RegisterWrite}

theorem looks_pure {v : α} (h : P v) : Looks P (pure v : Exec Memory α) :=
  fun _ _ => ⟨rfl, fun _ hv => Except.ok.inj hv ▸ h⟩

/-- What keeps the contents looks. -/
theorem Keeps.looks (h : Keeps Machine.contents x) : Looks (fun _ => True) x :=
  fun m _ => ⟨h m, fun _ _ => trivial⟩

theorem Looks.bind {Q : β → Prop} (hx : Looks P x) (hf : ∀ v, P v → Looks Q (f v)) : Looks Q (x >>= f) := by
  intro m hm
  obtain ⟨hkept, hyields⟩ := hx m hm
  rw [outcome_bind]
  generalize outcome x m = p at hkept hyields ⊢
  obtain ⟨e | v, m'⟩ := p
  · exact ⟨hkept, fun _ hv => nomatch hv⟩
  · have hbus : m'.bus = m.bus := congrArg Prod.snd hkept
    obtain ⟨hlast, hlastYields⟩ := hf v (hyields v rfl) m' (hbus.symm ▸ hm)
    exact ⟨hlast.trans hkept, hlastYields⟩

/-- **Looking first.** What a computation looks at before it writes does not count. -/
theorem Looks.writes_bind (hx : Looks P x) (hf : ∀ v, P v → Writes write (f v)) : Writes write (x >>= f) := by
  intro m hm
  obtain ⟨hkept, hyields⟩ := hx m hm
  rw [outcome_bind]
  generalize outcome x m = p at hkept hyields ⊢
  have hsame : p.2.registers = m.registers := Machine.registers_of_contents hkept
  obtain ⟨e | v, m'⟩ := p
  · exact Machine.writesRegister_of_registers hsame fun _ _ _ _ hx => nomatch hx
  · have hbus : m'.bus = m.bus := congrArg Prod.snd hkept
    exact (hf v (hyields v rfl) m' (hbus.symm ▸ hm)).of_registers hsame

/-- Behind a computation that keeps all contents, a write is still the only one. -/
theorem Keeps.writes_bind (hx : Keeps Machine.contents x) (hf : ∀ v, Writes write (f v)) :
    Writes write (x >>= f) :=
  hx.looks.writes_bind fun v _ => hf v

/-- Without a change of the machine no register changes. -/
theorem Keeps.registers (h : Keeps Machine.cpu x) : Keeps Machine.registers x :=
  fun m => congrArg (fun s : Cpu => (fun v => (s.vec v).contents, s.gprs)) (h m)

/-- Computations that leave the registers write nothing. -/
theorem Keeps.writes (h : Keeps Machine.registers x) : Writes .none x :=
  fun m _ => Machine.writesRegister_of_registers (h m) fun _ _ _ hwrite => nomatch hwrite

/-- Nor do those that fail. -/
theorem writes_invalidOpcode : Writes write (invalidOpcode : Exec Memory α) :=
  fun _ _ => Machine.writesRegister_of_registers rfl fun _ _ _ _ hx => nomatch hx

/-- **Writing.** A change of a vector register is a write of the extent that it has. -/
theorem writes_modifyVec {v : Fin 16} {e : Extent} {g : VectorReg → VectorReg}
    (h : ∀ r, e.Between r.contents (g r).contents) :
    Writes (.vector v e) (modifyVec v g : Exec Memory Unit) := by
  refine fun m _ => ⟨fun u e' hwrite _ _ => ?_, fun u hu => ?_, fun _ _ => rfl, fun _ hf => nomatch hf⟩
  · obtain ⟨rfl, rfl⟩ := RegisterWrite.vector.inj hwrite
    show e.Between _ ((m.cpu.setVec v _).vec v).contents
    rw [Cpu.vec_setVec_self]
    exact h _
  · have hne : v ≠ u := fun heq => hu e (heq ▸ rfl)
    show ((m.cpu.setVec v _).vec u).contents = _
    rw [Cpu.vec_setVec_of_ne _ _ hne]
    rfl

end

/-! ### Operands -/

section
variable {e : Extent} (dst src : Operand) (next : UInt64) {w : Width}

/-- A vector register as a destination that is not written to. -/
theorem Keeps.writes_low_zero {α : Type} {x : Exec Memory α} (h : Keeps Machine.registers x) :
    Writes (dst.registerWrite (.low 0)) x :=
  fun m _ => Machine.writesRegister_of_registers (h m) fun _ _ _ hwrite _ => Operand.eq_of_registerWrite hwrite

/-- An access reads registers for its address and changes none. -/
theorem keeps_cpu_access {α : Type} (act : Cpu → BusM Memory α) :
    Keeps Machine.registers (cpu >>= fun s => access (act s) : Exec Memory α) :=
  keeps_cpu.bind fun _ => (keeps_access _).registers

/-- A word goes to one register or to memory. -/
theorem writes_write (x : UInt64) :
    Writes (dst.registerWrite e) ((dst.bind next).write w x : Exec Memory Unit) := by
  cases dst with
  | reg r =>
    have hvectors : ∀ (s : Cpu) (v : Fin 16), (s.writeReg r x).vec v = s.vec v := by
      cases r with
      | low g w => cases w <;> exact fun _ _ => rfl
      | high g => exact fun _ _ => rfl
    refine fun m _ => ⟨fun _ _ hwrite => (nomatch hwrite), fun v _ => ?_, fun g hg => ?_, fun _ hf => nomatch hf⟩
    · exact congrArg VectorReg.contents (hvectors m.cpu v)
    · exact m.cpu.gpr_writeReg_of_ne (fun heq => hg (congrArg RegisterWrite.general heq)) x
  | vec v => exact writes_invalidOpcode
  | mem a => exact (keeps_cpu_access _).writes
  | imm v => exact writes_invalidOpcode

/-- A vector goes to one register or to memory. -/
theorem writes_writeXmm (x : BitVec 128) :
    Writes (dst.registerWrite (.low 128)) ((dst.bind next).writeXmm x : Exec Memory Unit) := by
  cases dst with
  | reg r => exact writes_invalidOpcode
  | vec v => exact writes_modifyVec fun r => Extent.between_setXmm r x
  | mem a => exact (keeps_cpu_access _).writes
  | imm x => exact writes_invalidOpcode

/-- The index that is looked up is the one of the destination. -/
theorem looks_vecIndex :
    Looks (fun v => dst.registerWrite e = .vector v e) (vecIndex (dst.bind next) : Exec Memory (Fin 16)) := by
  cases dst with
  | vec d => exact looks_pure rfl
  | _ => exact fun m _ => ⟨rfl, fun _ hv => nomatch hv⟩

/-- A word that was read is not longer than it should be. -/
theorem looks_readWord (w : Width) (a : UInt64) :
    Looks (fun v => v.toNat < 2 ^ w.bits) (access (Bus.readWord w a) : Exec Memory UInt64) := by
  refine fun m hm => ⟨keeps_ask _ m, fun v hv => ?_⟩
  have hread : outcome (access (Bus.readWord w a) : Exec Memory UInt64) m =
      ((m.bus.readWord w a).mapError .memory, m) :=
    outcome_access_ask (fun b => b.readWord w a) m
  rw [hread] at hv
  cases hword : m.bus.readWord w a with
  | error e =>
    rw [hword] at hv
    exact nomatch hv
  | ok x =>
    rw [hword] at hv
    obtain rfl : x = v := Except.ok.inj hv
    exact Memory.toNat_lt_of_readWord hm hword

/-- An integer operand has no more bits than are asked for. -/
theorem looks_read (h : src.Source w) :
    Looks (fun v => v.toNat < 2 ^ w.bits) ((src.bind next).read w : Exec Memory UInt64) := by
  cases src with
  | reg r =>
    obtain ⟨-, rfl⟩ := h
    exact fun m _ => ⟨rfl, fun v hv => Except.ok.inj hv ▸ Cpu.toNat_readReg_lt _ _⟩
  | vec v => exact absurd h id
  | mem a => exact keeps_cpu.looks.bind fun _ _ => looks_readWord w _
  | imm x => exact looks_pure (w.toNat_truncate_lt x)

end

/-! ### Operations -/

section
variable (dst src : Operand) (next : UInt64) (w : Width)

/-- An operation on two vectors writes the first 128 bits of its destination. -/
theorem writes_binary (f : BitVec 128 → BitVec 128 → BitVec 128) :
    Writes (dst.registerWrite (.low 128)) (binary f (dst.bind next) (src.bind next) : Exec Memory Unit) :=
  (src.bind next).keeps_readXmm.writes_bind fun _ => (dst.bind next).keeps_readXmm.writes_bind fun _ =>
    writes_writeXmm dst next _

/-- A scalar move between registers keeps neighbours; a load zeroes them. -/
theorem writes_moveScalar (p : Precision) :
    Writes (dst.registerWrite ((SseOp.moveScalar p).extent src))
      (moveScalar p (dst.bind next) (src.bind next) : Exec Memory Unit) := by
  cases dst with
  | vec d =>
    cases src with
    | vec s =>
      exact (keeps_viewScalar p s.index).writes_bind fun x =>
        writes_modifyVec fun r => Extent.between_setScalar r p x
    | mem a =>
      exact keeps_cpu.writes_bind fun _ => (looks_readWord p.width _).writes_bind fun _ hx =>
        writes_modifyVec fun r => Extent.between_setXmm_of_lt r hx
    | _ => exact writes_invalidOpcode
  | mem a =>
    cases src with
    | vec s =>
      exact (keeps_viewScalar p s.index).writes_bind fun _ => (keeps_cpu_access _).writes
    | _ => exact writes_invalidOpcode
  | _ => exact writes_invalidOpcode

/-- A move from a general-purpose register or from memory zeroes the rest of the first 128 bits. -/
theorem writes_moveInteger (h : Operand.MovesInteger w dst src) :
    Writes (dst.registerWrite (.load w.bits)) (moveInteger w (dst.bind next) (src.bind next) : Exec Memory Unit) := by
  rcases h with ⟨hd, hs⟩ | ⟨hd, hs⟩
  · obtain ⟨d, rfl⟩ := hd.eq_vec
    cases src with
    | vec s =>
      -- between vector registers the low word is cut
      exact (keeps_lowWord s.index).writes_bind fun x =>
        writes_modifyVec fun r => Extent.between_setXmm_of_lt r (w.toNat_truncate_lt x)
    | _ =>
      exact (looks_read _ next (hs.resolve_left id)).writes_bind fun _ hx =>
        writes_modifyVec fun r => Extent.between_setXmm_of_lt r hx
  · obtain ⟨s, rfl⟩ := hs.eq_vec
    cases dst with
    | vec d => exact absurd hd id
    | _ => exact (keeps_lowWord s.index).writes_bind fun _ => writes_write _ next _

/-- A shift of lanes writes the first 128 bits. -/
theorem writes_shiftLanes (op : LaneShift) :
    Writes (dst.registerWrite (.low 128)) (shiftLanes op w (dst.bind next) (src.bind next) : Exec Memory Unit) := by
  have hshift : ∀ count : Nat, Writes (dst.registerWrite (.low 128))
      (do (dst.bind next).writeXmm (op.apply w count (← (dst.bind next).readXmm)) : Exec Memory Unit) :=
    fun count => (dst.bind next).keeps_readXmm.writes_bind fun _ => writes_writeXmm dst next _
  cases src with
  | imm n => exact hshift n.toNat
  | _ => exact (Location.keeps_readXmm _).writes_bind fun _ => hshift _

/-- A shift of bytes writes the first 128 bits. -/
theorem writes_shiftBytes (op : LaneShift) :
    Writes (dst.registerWrite (.low 128)) (shiftBytes op (dst.bind next) (src.bind next) : Exec Memory Unit) := by
  cases src with
  | imm n => exact (dst.bind next).keeps_readXmm.writes_bind fun _ => writes_writeXmm dst next _
  | _ => exact writes_invalidOpcode

/-- Scalar arithmetic writes one number. -/
theorem writes_float (op : FloatOp) (p : Precision) :
    Writes (dst.registerWrite (.low p.width.bits))
      (float op p (dst.bind next) (src.bind next) : Exec Memory Unit) :=
  (keeps_readScalar (src.bind next) p).writes_bind fun _ => (looks_vecIndex dst next).writes_bind fun d hd =>
    (keeps_viewScalar p d).writes_bind fun _ => hd ▸ writes_modifyVec fun r => Extent.between_setScalar r p _

/-- A comparison writes no register. -/
theorem writes_compareFloats (p : Precision) :
    Writes (dst.registerWrite (.low 0)) (compareFloats p (dst.bind next) (src.bind next) : Exec Memory Unit) :=
  (keeps_readScalar (src.bind next) p).writes_bind fun _ => (keeps_vecIndex (dst.bind next)).writes_bind fun d =>
    (keeps_viewScalar p d).writes_bind fun _ => Keeps.writes_low_zero dst (keeps_cpu.bind fun _ => fun _ => rfl)

/-- A conversion from an integer writes one number. -/
theorem writes_ofInteger (p : Precision) :
    Writes (dst.registerWrite (.low p.width.bits))
      (ofInteger p w (dst.bind next) (src.bind next) : Exec Memory Unit) :=
  ((src.bind next).keeps_read w).writes_bind fun _ => (looks_vecIndex dst next).writes_bind fun _ hd =>
    hd ▸ writes_modifyVec fun r => Extent.between_setScalar r p _

/-- A conversion to an integer writes no vector register. -/
theorem writes_toInteger (p : Precision) :
    Writes (dst.registerWrite (.low 0)) (toInteger p w (dst.bind next) (src.bind next) : Exec Memory Unit) :=
  (keeps_readScalar (src.bind next) p).writes_bind fun _ => writes_write dst next _

/-- The wider number is written. -/
theorem writes_widen :
    Writes (dst.registerWrite (.low Precision.double.width.bits))
      (widen (dst.bind next) (src.bind next) : Exec Memory Unit) :=
  (keeps_readScalar (src.bind next) .single).writes_bind fun x => (looks_vecIndex dst next).writes_bind fun _ hd =>
    hd ▸ writes_modifyVec fun r => Extent.between_setDouble r (widenBits x.toUInt32)

/-- The narrower number is written. -/
theorem writes_narrow :
    Writes (dst.registerWrite (.low Precision.single.width.bits))
      (narrow (dst.bind next) (src.bind next) : Exec Memory Unit) :=
  (keeps_readScalar (src.bind next) .double).writes_bind fun x => (looks_vecIndex dst next).writes_bind fun _ hd =>
    hd ▸ writes_modifyVec fun r => Extent.between_setSingle r (narrowBits x)

/-- **Legacy encoding.** Every operation makes the write that it has. -/
theorem writes_sse {op : SseOp} (h : op.Fits dst src) :
    Writes (dst.registerWrite (op.extent src)) (sse op (dst.bind next) (src.bind next) : Exec Memory Unit) := by
  cases op with
  | movePacked form =>
    exact (src.bind next).keeps_readXmm.writes_bind fun _ => writes_writeXmm dst next _
  | moveScalar p => exact writes_moveScalar dst src next p
  | movd => exact writes_moveInteger dst src next .w32 h
  | movq => exact writes_moveInteger dst src next .w64 h
  | logic op => exact writes_binary dst src next op.apply
  | lanes op lane => exact writes_binary dst src next (op.apply lane)
  | moveMask =>
    exact (src.bind next).keeps_readXmm.writes_bind fun _ => writes_write dst next _
  | shiftLanes op lane => exact writes_shiftLanes dst src next lane op
  | shiftBytes op => exact writes_shiftBytes dst src next op
  | float op p => exact writes_float dst src next op p
  | compare ordered p => exact writes_compareFloats dst src next p
  | ofInteger p w => exact writes_ofInteger dst src next w p
  | toInteger p w => exact writes_toInteger dst src next w p
  | widen => exact writes_widen dst src next
  | narrow => exact writes_narrow dst src next

/-- A wide value is written with zeros behind it. -/
theorem writes_writeWide {size : VecSize} (hsize : ∀ s, dst.vecSize? = some s → s = size) (x : WideValue) :
    Writes dst.vexWrite (writeWide (dst.bind next) size x : Exec Memory Unit) := by
  cases dst with
  | reg r => exact writes_invalidOpcode
  | vec v =>
    obtain rfl : v.size = size := hsize v.size rfl
    obtain ⟨v, size⟩ := v
    cases size with
    | xmm =>
      refine writes_modifyVec fun r => ?_
      rw [VectorReg.contents_setXmmVex]
      exact Extent.between_vex .xmm r.contents x.low
    | ymm =>
      refine writes_modifyVec fun r => ?_
      rw [VectorReg.contents_setYmm]
      exact Extent.between_vex .ymm r.contents (x.high ++ x.low)
  | mem a =>
    cases size with
    | xmm => exact (keeps_cpu_access _).writes
    | ymm =>
      exact (keeps_cpu.bind fun _ => (keeps_access _).registers.bind fun _ => (keeps_access _).registers).writes
  | imm x => exact writes_invalidOpcode

/-- **VEX encoding.** The destination says how far the write reaches, if it is a register. -/
theorem writes_vexMove :
    Writes dst.vexWrite
      (vexMove (dst.vecSize? <|> src.vecSize?) (dst.bind next) (src.bind next) : Exec Memory Unit) := by
  cases hsize : (dst.vecSize? <|> src.vecSize?) with
  | none => exact writes_invalidOpcode
  | some size =>
    refine (keeps_readWide (src.bind next) size).writes_bind fun x => writes_writeWide dst next (fun s hs => ?_) x
    rw [hs] at hsize
    exact Option.some.inj hsize

/-- Both operations of the VEX encoding write their destination and zero the rest of it. -/
theorem writes_vexBinary (op : VexOp) (d lhs : VecReg) :
    Writes (Operand.vec d).vexWrite
      (vexBinary op d.size ((Operand.vec d).bind next) ((Operand.vec lhs).bind next) (src.bind next) :
        Exec Memory Unit) :=
  (keeps_readWide _ d.size).writes_bind fun _ => (keeps_readWide (src.bind next) d.size).writes_bind fun _ =>
    writes_writeWide (.vec d) next (fun _ hs => (Option.some.inj hs).symm) _

end

/-! ### Instructions -/

section
variable {i : Instruction} {m : Machine Memory}

/-- What the work of an instruction did to the registers, the instruction did. -/
theorem writesRegister_retire {write : RegisterWrite} {x : Exec Memory Unit}
    (hwork : (i.execute i.binding : Exec Memory Outcome) = do
      x
      return .next i.next)
    (hx : Writes write x) (hm : m.bus.table.WellFormed) :
    m.WritesRegister write (outcome (retire i i.binding) m) := by
  have hresult := hx m hm
  rw [outcome_retire_next hwork]
  generalize outcome x m = p at hresult ⊢
  obtain ⟨f | u, m'⟩ := p
  · exact Machine.writesRegister_of_registers (hresult.fault f rfl) fun _ _ _ _ hx => nomatch hx
  · exact ⟨fun v e hwrite _ _ => hresult.target v e hwrite u rfl, hresult.vectors, hresult.general,
      fun _ hf => nomatch hf⟩

/-- An instruction in the legacy encoding. -/
theorem writesRegister_sse {op : SseOp} {dst src : Operand} (hop : i.operation = .sse op dst src)
    (hfits : op.Fits dst src) (hm : m.bus.table.WellFormed) :
    m.WritesRegister (dst.registerWrite (op.extent src)) (outcome (retire i i.binding) m) := by
  have hdst : i.binding.get 0 = dst.bind i.next := Instruction.get_binding (by rw [hop]; rfl)
  have hsrc : i.binding.get 1 = src.bind i.next := Instruction.get_binding (by rw [hop]; rfl)
  have hwork : (i.execute i.binding : Exec Memory Outcome) = do
      sse op (dst.bind i.next) (src.bind i.next)
      return .next i.next := by
    simp only [Instruction.execute, hop, hdst, hsrc]
  exact writesRegister_retire hwork (writes_sse dst src i.next hfits) hm

/-- A move in the VEX encoding. -/
theorem writesRegister_vexMove {aligned : Bool} {dst src : Operand}
    (hop : i.operation = .vexMove aligned dst src) (hm : m.bus.table.WellFormed) :
    m.WritesRegister dst.vexWrite (outcome (retire i i.binding) m) := by
  have hdst : i.binding.get 0 = dst.bind i.next := Instruction.get_binding (by rw [hop]; rfl)
  have hsrc : i.binding.get 1 = src.bind i.next := Instruction.get_binding (by rw [hop]; rfl)
  have hwork : (i.execute i.binding : Exec Memory Outcome) = do
      vexMove (dst.vecSize? <|> src.vecSize?) (dst.bind i.next) (src.bind i.next)
      return .next i.next := by
    simp only [Instruction.execute, hop, hdst, hsrc]
  exact writesRegister_retire hwork (writes_vexMove dst src i.next) hm

/-- An operation on two operands in the VEX encoding. -/
theorem writesRegister_vexBinary {op : VexOp} {dst lhs : VecReg} {rhs : Operand}
    (hop : i.operation = .vexBinary op dst lhs rhs) (hm : m.bus.table.WellFormed) :
    m.WritesRegister (Operand.vec dst).vexWrite (outcome (retire i i.binding) m) := by
  have hdst : i.binding.get 0 = (Operand.vec dst).bind i.next := Instruction.get_binding (by rw [hop]; rfl)
  have hlhs : i.binding.get 1 = (Operand.vec lhs).bind i.next := Instruction.get_binding (by rw [hop]; rfl)
  have hrhs : i.binding.get 2 = rhs.bind i.next := Instruction.get_binding (by rw [hop]; rfl)
  have hwork : (i.execute i.binding : Exec Memory Outcome) = do
      vexBinary op dst.size ((Operand.vec dst).bind i.next) ((Operand.vec lhs).bind i.next) (rhs.bind i.next)
      return .next i.next := by
    simp only [Instruction.execute, hop, hdst, hlhs, hrhs]
  exact writesRegister_retire hwork (writes_vexBinary rhs i.next op dst lhs) hm

/-- `vzeroupper` does its work on every register and goes on. -/
theorem outcome_retire_vzeroupper (hop : i.operation = .vzeroupper) :
    outcome (retire i i.binding) m = (.ok .proceed, ⟨m.cpu.zeroUpper.setRip i.next, m.bus⟩) := by
  rw [outcome_retire]
  simp only [Instruction.execute, hop]
  rfl

/-- **Instructions.** What a decoded vector instruction does to the contents of registers. In the legacy encoding
    it makes the write that its operation has to its destination and no other, and this never reaches behind the
    low 128 bits of a vector register. In the VEX encoding the write zeroes all bits behind the operand, and
    `vzeroupper` zeroes those behind the low 128 in every register. -/
theorem vector_widths {rip : UInt64} {bs : List UInt8} (hi : decode rip bs = .ok i) (hm : m.bus.Reachable) :
    (∀ op dst src, i.operation = .sse op dst src →
      m.WritesRegister (dst.registerWrite (op.extent src)) (outcome (retire i i.binding) m) ∧
        ∀ v k, 128 ≤ k →
          ((outcome (retire i i.binding) m).2.vectors v).getLsbD k = (m.vectors v).getLsbD k) ∧
    (∀ aligned dst src, i.operation = .vexMove aligned dst src →
      m.WritesRegister dst.vexWrite (outcome (retire i i.binding) m)) ∧
    (∀ op dst lhs rhs, i.operation = .vexBinary op dst lhs rhs →
      m.WritesRegister (Operand.vec dst).vexWrite (outcome (retire i i.binding) m)) ∧
    (i.operation = .vzeroupper →
      (outcome (retire i i.binding) m).1 = .ok .proceed ∧ ∀ v,
        (∀ k < 128, ((outcome (retire i i.binding) m).2.vectors v).getLsbD k = (m.vectors v).getLsbD k) ∧
          ∀ k, 128 ≤ k → ((outcome (retire i i.binding) m).2.vectors v).getLsbD k = false) := by
  have hwf := hm.wellFormed
  refine ⟨fun op dst src hop => ?_, fun aligned dst src hop => writesRegister_vexMove hop hwf,
    fun op dst lhs rhs hop => writesRegister_vexBinary hop hwf, fun hop => ?_⟩
  -- the operands of a decoded instruction fit its operation, which bounds what may be cleared
  · have hfits := (wellFormed_of_decode rip hi).fits
    rw [hop] at hfits
    have hwrites := writesRegister_sse (m := m) hop hfits hwf
    refine ⟨hwrites, fun v k hk => hwrites.getLsbD_of_cleared_le (fun _ _ hwrite => ?_) v⟩
    rw [Operand.eq_of_registerWrite hwrite]
    exact Nat.le_trans (op.cleared_extent_le src) hk
  · rw [outcome_retire_vzeroupper hop]
    refine ⟨rfl, fun v => ?_⟩
    have hvec : (m.cpu.zeroUpper.setRip i.next).vec v = (m.cpu.vec v).zeroUpper := by
      simp [Cpu.vec, Cpu.zeroUpper, Cpu.setRip]
    simp only [Machine.vectors, hvec]
    exact ⟨fun k hk => (m.cpu.vec v).getLsbD_zeroUpper hk, fun k hk => (m.cpu.vec v).getLsbD_zeroUpper_of_le hk⟩

/-- Lanes are added to a register of ones: the legacy encoding keeps the ones behind the low 128 bits, the VEX
    encoding zeroes them. -/
theorem vector_widths_add :
    let ones : VectorReg := .ofBits (BitVec.allOnes 512)
    let m : Machine Memory := ⟨(Cpu.initial.setVec 0 ones).setVec 1 (.ofBits 1), .empty ⟨0x10000, 0x20000⟩⟩
    let legacy : Instruction :=
      ⟨0x1000, .ofBytes [0x66, 0x0f, 0xd4, 0xc1], .sse (.lanes .add .w64) (.vec ⟨0, .xmm⟩) (.vec ⟨1, .xmm⟩)⟩
    let vex : Instruction :=
      ⟨0x1000, .ofBytes [0xc5, 0xf9, 0xd4, 0xc1], .vexBinary .vpaddq ⟨0, .xmm⟩ ⟨0, .xmm⟩ (.vec ⟨1, .xmm⟩)⟩
    (∀ k, 128 ≤ k → k < 512 →
      ((outcome (retire legacy legacy.binding) m).2.vectors 0).getLsbD k = true) ∧
    ∀ k, 128 ≤ k → k < 512 →
      ((outcome (retire vex vex.binding) m).2.vectors 0).getLsbD k = false := by
  intro ones m legacy vex
  have hm : m.bus.Reachable := ⟨_, [], rfl⟩
  have hlegacy : decode 0x1000 [0x66, 0x0f, 0xd4, 0xc1] = .ok legacy := by decide +kernel
  have hvex : decode 0x1000 [0xc5, 0xf9, 0xd4, 0xc1] = .ok vex := by decide +kernel
  obtain ⟨hkeeps, -⟩ := vector_widths hlegacy hm
  obtain ⟨-, -, hzeroes, -⟩ := vector_widths hvex hm
  have hok : (outcome (retire vex vex.binding) m).1 = .ok .proceed := by decide +kernel
  refine ⟨fun k hk hlt => ?_, fun k hk hlt => ?_⟩
  · rw [(hkeeps _ _ _ rfl).2 0 k hk]
    show (BitVec.allOnes 512).getLsbD k = true
    rw [BitVec.getLsbD_allOnes, decide_eq_true hlt]
  · exact ((hzeroes _ _ _ _ rfl).target 0 (.vex .xmm) rfl _ hok).zero k hk hlt

end

end Exec

end Amd64
