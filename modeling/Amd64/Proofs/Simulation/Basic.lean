import Amd64.Proofs.Semantics.Outcome
import Amd64.Semantics.Sse
import Amd64.Semantics.Vex

namespace Amd64

/-!
# Computations that run alike

Two machines may differ in ways that execution cannot see and keeps.  Their buses may even be of different
kinds.

* `Alike R x y`       — from states with `R`, `x` and `y` yield the same value or the same error and leave
  states with `R`;
* `Cpu.Congruence`, `Bus.Congruence` — relations that what execution does to registers, and accesses
  through buses, keep and see nothing of;
* `Machine.Related`, `Machine.Congruence` — both together;
* `Location.alike_read`, `Location.alike_write`, … — accesses to operands run alike on related machines.
-/

/-- From states with `R`, `x` and `y` yield the same value or the same error and leave states with `R`. -/
def Alike {ε σ τ α : Type} (R : σ → τ → Prop) (x : ExceptT ε (StateM σ) α)
    (y : ExceptT ε (StateM τ) α) : Prop :=
  ∀ s t, R s t → (outcome x s).1 = (outcome y t).1 ∧ R (outcome x s).2 (outcome y t).2

section
variable {ε σ τ α β : Type} {R : σ → τ → Prop}

theorem alike_pure (v : α) :
    Alike R (pure v : ExceptT ε (StateM σ) α) (pure v : ExceptT ε (StateM τ) α) :=
  fun _ _ h => ⟨rfl, h⟩

theorem alike_throw (e : ε) :
    Alike R (throw e : ExceptT ε (StateM σ) α) (throw e : ExceptT ε (StateM τ) α) :=
  fun _ _ h => ⟨rfl, h⟩

/-- What is done next may depend on the states. -/
theorem alike_get {f : σ → ExceptT ε (StateM σ) α} {g : τ → ExceptT ε (StateM τ) α}
    (h : ∀ s t, R s t → Alike R (f s) (g t)) : Alike R (get >>= f) (get >>= g) :=
  fun s t hst => h s t hst s t hst

/-- Either both fail with the same error or both yield the same value. -/
theorem Alike.outcomes {x : ExceptT ε (StateM σ) α} {y : ExceptT ε (StateM τ) α} (h : Alike R x y)
    {s : σ} {t : τ} (hst : R s t) :
    (∃ e s' t', outcome x s = (.error e, s') ∧ outcome y t = (.error e, t') ∧ R s' t') ∨
      ∃ v s' t', outcome x s = (.ok v, s') ∧ outcome y t = (.ok v, t') ∧ R s' t' := by
  obtain ⟨hval, hrel⟩ := h s t hst
  have hy : outcome y t = ((outcome x s).1, (outcome y t).2) := by rw [hval]
  cases hx : (outcome x s).1 with
  | error e => exact Or.inl ⟨e, _, _, Prod.ext hx rfl, hy.trans (by rw [hx]), hrel⟩
  | ok v => exact Or.inr ⟨v, _, _, Prod.ext hx rfl, hy.trans (by rw [hx]), hrel⟩

/-- **Sequences.** The second parts start with the same value on related states. -/
theorem Alike.bind {x : ExceptT ε (StateM σ) α} {y : ExceptT ε (StateM τ) α}
    {f : α → ExceptT ε (StateM σ) β} {g : α → ExceptT ε (StateM τ) β} (hx : Alike R x y)
    (hf : ∀ v, Alike R (f v) (g v)) : Alike R (x >>= f) (y >>= g) := by
  intro s t h
  rw [outcome_bind, outcome_bind]
  obtain ⟨e, s', t', hs, ht, hrel⟩ | ⟨v, s', t', hs, ht, hrel⟩ := hx.outcomes h
  · rw [hs, ht]
    exact ⟨rfl, hrel⟩
  · rw [hs, ht]
    exact hf v s' t' hrel

/-- Handlers start with the same error on related states. -/
theorem Alike.tryCatch {x : ExceptT ε (StateM σ) α} {y : ExceptT ε (StateM τ) α}
    {f : ε → ExceptT ε (StateM σ) α} {g : ε → ExceptT ε (StateM τ) α} (hx : Alike R x y)
    (hf : ∀ e, Alike R (f e) (g e)) :
    Alike R (MonadExcept.tryCatch x f) (MonadExcept.tryCatch y g) := by
  intro s t h
  rw [outcome_tryCatch, outcome_tryCatch]
  obtain ⟨e, s', t', hs, ht, hrel⟩ | ⟨v, s', t', hs, ht, hrel⟩ := hx.outcomes h
  · rw [hs, ht]
    exact hf e s' t' hrel
  · rw [hs, ht]
    exact ⟨rfl, hrel⟩

theorem Alike.ite {c : Prop} [Decidable c] {x x' : ExceptT ε (StateM σ) α}
    {y y' : ExceptT ε (StateM τ) α} (hx : Alike R x y) (hx' : Alike R x' y') :
    Alike R (if c then x else x') (if c then y else y') := by
  split
  · exact hx
  · exact hx'

end

/-! ### Registers -/

/-- All registers but the vector registers are the same. -/
structure Cpu.Agrees (s t : Cpu) : Prop where
  gprs : s.gprs = t.gprs
  rip : s.rip = t.rip
  flags : s.flags = t.flags
  fsBase : s.fsBase = t.fsBase
  gsBase : s.gsBase = t.gsBase

namespace Cpu.Agrees

variable {s t : Cpu} (h : s.Agrees t)

include h

theorem gpr : s.gpr = t.gpr := by
  funext g
  rw [Cpu.gpr, Cpu.gpr, h.gprs]

/-- All parts of registers agree. -/
theorem readReg : s.readReg = t.readReg := by
  funext r
  cases r with
  | low g w => simp only [Cpu.readReg, h.gpr]
  | high g => simp only [Cpu.readReg, h.gpr]

theorem holds : s.holds = t.holds := by
  funext c
  rw [Cpu.holds, Cpu.holds, h.flags]

theorem offset (m : BoundAddress) : m.offset s = m.offset t := by
  simp only [BoundAddress.offset, h.gpr]

theorem effective (m : BoundAddress) : m.effective s = m.effective t := by
  have hbase : s.segmentBase = t.segmentBase := by
    funext r
    cases r with
    | fs => exact h.fsBase
    | gs => exact h.gsBase
  simp only [BoundAddress.effective, h.offset m, hbase]

end Cpu.Agrees

namespace Cpu

/-- A change of registers keeps a relation. -/
def Keeps (E : Cpu → Cpu → Prop) (f : Cpu → Cpu) : Prop :=
  ∀ s t, E s t → E (f s) (f t)

/-- A view of vector register `i` shows the same on related processors and leaves related ones. -/
def Shows {α : Type} (E : Cpu → Cpu → Prop) (i : Fin 16) (view : VectorReg → α × VectorReg) : Prop :=
  ∀ s t, E s t → (view (s.vec i)).1 = (view (t.vec i)).1 ∧
    E (s.setVec i (view (s.vec i)).2) (t.setVec i (view (t.vec i)).2)

/-- A relation between processors that everything that instructions do to registers keeps, and of which
    they see nothing. -/
structure Congruence (E : Cpu → Cpu → Prop) : Prop where
  agrees : ∀ {s t}, E s t → s.Agrees t
  setGpr : ∀ g v, Keeps E (·.setGpr g v)
  setFlags : ∀ f, Keeps E (·.setFlags f)
  setVec : ∀ i r, Keeps E (·.setVec i r)
  setXmm : ∀ i x, Keeps E (·.modifyVec i (·.setXmm x))
  setSingle : ∀ i x, Keeps E (·.modifyVec i (·.setSingle x))
  setDouble : ∀ i x, Keeps E (·.modifyVec i (·.setDouble x))
  zeroUpper : Keeps E Cpu.zeroUpper
  xmm : ∀ i, Shows E i VectorReg.xmm
  ymm : ∀ i, Shows E i VectorReg.ymm
  single : ∀ i, Shows E i VectorReg.single
  double : ∀ i, Shows E i VectorReg.double

namespace Congruence

variable {E : Cpu → Cpu → Prop} (hE : Congruence E)

include hE

/-- A write to the same part of a register keeps the relation. -/
theorem writeReg (r : Reg) (v : UInt64) : Keeps E (·.writeReg r v) := by
  intro s t h
  have hgpr := (hE.agrees h).gpr
  cases r with
  | low g w => cases w <;> simpa only [Cpu.writeReg, hgpr] using hE.setGpr g _ s t h
  | high g => simpa only [Cpu.writeReg, hgpr] using hE.setGpr g _ s t h

/-- The relation shows in the numbers of vector registers. -/
theorem scalar (p : Precision) (i : Fin 16) : Shows E i (VectorReg.scalar p) := by
  intro s t h
  cases p with
  | single => exact (hE.single i s t h).imp_left (congrArg UInt32.toUInt64)
  | double => exact hE.double i s t h

/-- The same number is written on both sides. -/
theorem setScalar (p : Precision) (i : Fin 16) (x : UInt64) :
    Keeps E (·.modifyVec i (·.setScalar p x)) := by
  cases p with
  | single => exact hE.setSingle i x.toUInt32
  | double => exact hE.setDouble i x

end Congruence

/-- Processors that are the same and have a property that changes of general-purpose registers, of flags
    and of vector registers keep. -/
theorem congruence_eq_and {P : Cpu → Prop} (hgpr : ∀ s g v, P s → P (s.setGpr g v))
    (hflags : ∀ s f, P s → P (s.setFlags f))
    (hvectors : ∀ (s : Cpu) vs, P s → P { s with vectors := vs }) :
    Congruence fun s t => s = t ∧ P s := by
  have hkeeps : ∀ f : Cpu → Cpu, (∀ s, P s → P (f s)) → Keeps (fun s t => s = t ∧ P s) f := by
    rintro f hf s _ ⟨rfl, hs⟩
    exact ⟨rfl, hf s hs⟩
  have hshows : ∀ {α : Type} (i : Fin 16) (view : VectorReg → α × VectorReg),
      Shows (fun s t => s = t ∧ P s) i view := by
    rintro α i view s _ ⟨rfl, hs⟩
    exact ⟨rfl, rfl, hvectors s _ hs⟩
  refine ⟨?_, fun g v => hkeeps _ fun s => hgpr s g v, fun f => hkeeps _ fun s => hflags s f,
    fun i r => hkeeps _ fun s => hvectors s _, fun i x => hkeeps _ fun s => hvectors s _,
    fun i x => hkeeps _ fun s => hvectors s _, fun i x => hkeeps _ fun s => hvectors s _,
    hkeeps _ fun s => hvectors s _, fun i => hshows i _, fun i => hshows i _, fun i => hshows i _,
    fun i => hshows i _⟩
  rintro s _ ⟨rfl, -⟩
  exact ⟨rfl, rfl, rfl, rfl, rfl⟩

/-- Machines that are equal behave alike. -/
theorem congruence_eq : Congruence (· = ·) := by
  have hany : Congruence fun s t => s = t ∧ True :=
    congruence_eq_and (fun _ _ _ h => h) (fun _ _ h => h) fun _ _ h => h
  simpa using hany

end Cpu

/-! ### Buses -/

/-- A relation between the states of two buses that every access keeps and of which no access sees
    anything. -/
structure Bus.Congruence {σ τ : Type} [Bus σ] [Bus τ] (S : σ → τ → Prop) : Prop where
  readWord : ∀ w a, Alike S (Bus.readWord w a) (Bus.readWord w a)
  readXmm : ∀ a, Alike S (Bus.readXmm a) (Bus.readXmm a)
  writeWord : ∀ w a v, Alike S (Bus.writeWord w a v) (Bus.writeWord w a v)
  writeXmm : ∀ a v, Alike S (Bus.writeXmm a v) (Bus.writeXmm a v)
  fetch : ∀ a n, Alike S (Bus.fetch a n) (Bus.fetch a n)
  readBytes : ∀ a n, Alike S (Bus.readBytes a n) (Bus.readBytes a n)
  writeBytes : ∀ a bs, Alike S (Bus.writeBytes a bs) (Bus.writeBytes a bs)

/-- Buses in the same state. -/
theorem Bus.congruence_eq (σ : Type) [Bus σ] : Bus.Congruence fun b c : σ => b = c := by
  have hself : ∀ {α : Type} (x : BusM σ α), Alike (fun b c => b = c) x x := by
    rintro α x b _ rfl
    exact ⟨rfl, rfl⟩
  exact ⟨fun w a => hself _, fun a => hself _, fun w a v => hself _, fun a v => hself _,
    fun a n => hself _, fun a n => hself _, fun a bs => hself _⟩

/-! ### Machines -/

namespace Machine

/-- Processors with `E` on buses with `S`. -/
def Related {σ τ : Type} (E : Cpu → Cpu → Prop) (S : σ → τ → Prop) (m : Machine σ)
    (n : Machine τ) : Prop :=
  E m.cpu n.cpu ∧ S m.bus n.bus

/-- Relations between processors and between buses of which execution sees nothing. -/
structure Congruence {σ τ : Type} [Bus σ] [Bus τ] (E : Cpu → Cpu → Prop) (S : σ → τ → Prop) :
    Prop where
  cpu : Cpu.Congruence E
  bus : Bus.Congruence S

end Machine

namespace Exec

open Machine (Related)

variable {σ τ α : Type} {E : Cpu → Cpu → Prop} {S : σ → τ → Prop}

/-- The same change is made to both sides. -/
theorem alike_modifyCpu {f : Cpu → Cpu} (h : Cpu.Keeps E f) :
    Alike (Related E S) (modifyCpu f) (modifyCpu f) :=
  fun _ _ hmn => ⟨rfl, h _ _ hmn.1, hmn.2⟩

/-- Both sides show the same through the view. -/
theorem alike_viewVec (i : Fin 16) (view : VectorReg → α × VectorReg) (h : Cpu.Shows E i view) :
    Alike (Related E S) (viewVec i view) (viewVec i view) :=
  fun m n hmn =>
    have ⟨hval, hrel⟩ := h m.cpu n.cpu hmn.1
    ⟨congrArg Except.ok hval, hrel, hmn.2⟩

/-- The same access is made on both buses. -/
theorem alike_access {x : BusM σ α} {y : BusM τ α} (h : Alike S x y) :
    Alike (Related E S) (access x) (access y) := by
  intro m n hmn
  rw [outcome_access, outcome_access]
  obtain ⟨e, b, c, hb, hc, hbus⟩ | ⟨v, b, c, hb, hc, hbus⟩ := h.outcomes hmn.2
  · rw [hb, hc]
    exact ⟨rfl, hmn.1, hbus⟩
  · rw [hb, hc]
    exact ⟨rfl, hmn.1, hbus⟩

variable [Bus σ] [Bus τ] (h : Machine.Congruence E S)

include h

/-- What is done next may depend on all registers but the vector registers. -/
theorem alike_cpu {f : Cpu → Exec σ α} {g : Cpu → Exec τ α}
    (hfg : ∀ s t, s.Agrees t → Alike (Related E S) (f s) (g t)) :
    Alike (Related E S) (cpu >>= f) (cpu >>= g) :=
  fun m n hmn => hfg m.cpu n.cpu (h.cpu.agrees hmn.1) m n hmn

/-- The same register is written on both sides. -/
theorem alike_setGpr (g : Gpr) (v : UInt64) : Alike (Related E S) (setGpr g v) (setGpr g v) :=
  alike_modifyCpu (h.cpu.setGpr g v)

/-- The same part of a register is written on both sides. -/
theorem alike_writeReg (r : Reg) (v : UInt64) :
    Alike (Related E S) (writeReg r v) (writeReg r v) :=
  alike_modifyCpu (h.cpu.writeReg r v)

/-- The same flags are set on both sides. -/
theorem alike_setFlags (f : Flags) : Alike (Related E S) (setFlags f) (setFlags f) :=
  alike_modifyCpu (h.cpu.setFlags f)

/-- Both sides stop where they are. -/
theorem alike_invalidOpcode :
    Alike (Related E S) (invalidOpcode : Exec σ α) (invalidOpcode : Exec τ α) :=
  alike_cpu h fun s t hst => by
    rw [hst.rip]
    exact alike_throw _

/-- An access at the effective address of an operand. -/
theorem alike_effective (m : BoundAddress) {x : UInt64 → BusM σ α} {y : UInt64 → BusM τ α}
    (hxy : ∀ a, Alike S (x a) (y a)) :
    Alike (Related E S) (do access (x (m.effective (← cpu)))) (do access (y (m.effective (← cpu)))) :=
  alike_cpu h fun s t hst => by
    rw [hst.effective m]
    exact alike_access (hxy _)

end Exec

/-! ### Operands -/

namespace Location

open Exec
open Machine (Related)

variable {σ τ : Type} {E : Cpu → Cpu → Prop} {S : σ → τ → Prop} [Bus σ] [Bus τ]
  (h : Machine.Congruence E S) (l : Location) (w : Width)

include h

/-- The same word is read from an operand. -/
theorem alike_read : Alike (Related E S) (l.read w) (l.read w) := by
  cases l with
  | reg r =>
    refine alike_cpu h fun s t hst => ?_
    rw [hst.readReg]
    exact alike_pure _
  | vec v => exact alike_invalidOpcode h
  | mem m => exact alike_effective h m (h.bus.readWord w)
  | imm v => exact alike_pure _

/-- The same word is written to an operand. -/
theorem alike_write (v : UInt64) : Alike (Related E S) (l.write w v) (l.write w v) := by
  cases l with
  | reg r => exact alike_writeReg h r v
  | vec v => exact alike_invalidOpcode h
  | mem m => exact alike_effective h m fun a => h.bus.writeWord w a v
  | imm v => exact alike_invalidOpcode h

/-- The same 128 bits are read from an operand. -/
theorem alike_readXmm : Alike (Related E S) l.readXmm l.readXmm := by
  cases l with
  | reg r => exact alike_invalidOpcode h
  | vec v => exact alike_viewVec v.index VectorReg.xmm (h.cpu.xmm v.index)
  | mem m => exact alike_effective h m h.bus.readXmm
  | imm v => exact alike_invalidOpcode h

/-- The same 128 bits are written to an operand. -/
theorem alike_writeXmm (x : BitVec 128) : Alike (Related E S) (l.writeXmm x) (l.writeXmm x) := by
  cases l with
  | reg r => exact alike_invalidOpcode h
  | vec v => exact alike_modifyCpu (h.cpu.setXmm v.index x)
  | mem m => exact alike_effective h m fun a => h.bus.writeXmm a x
  | imm v => exact alike_invalidOpcode h

end Location

end Amd64
