import Amd64.Proofs.Memory.Calls
import Amd64.Proofs.Semantics.Faults

namespace Amd64

/-!
# Precise computations

A computation that ends with a fault leaves the machine as it was if its parts are in order: first those
that only look at the machine, then at most one that may fail, then those that cannot.

* `Exec.Keeps`     — a computation leaves what a view shows of the machine;
* `Exec.Precise`   — it does so when it ends with a fault;
* `Exec.Total`     — it does not fail;
* `Exec.Keeps.precise_bind`, `Exec.Precise.bind_total` — the order of the parts;
* `Location.keeps_read`, `Location.precise_write` — operands.
-/

namespace Exec

/-- What `view` shows of the machine stays. -/
def Keeps {σ α γ : Type} (view : Machine σ → γ) (x : Exec σ α) : Prop :=
  ∀ m, view (outcome x m).2 = view m

/-- What `view` shows of the machine stays if `x` ends with a fault. -/
def Precise {σ α γ : Type} (view : Machine σ → γ) (x : Exec σ α) : Prop :=
  ∀ m f, (outcome x m).1 = .error f → view (outcome x m).2 = view m

/-- No machine makes `x` end with a fault. -/
def Total {σ α : Type} (x : Exec σ α) : Prop :=
  x.FaultsIn fun _ => False

section
variable {σ α β γ : Type} {view : Machine σ → γ}

/-- What always leaves the view leaves it with a fault. -/
theorem Keeps.precise {x : Exec σ α} (h : Keeps view x) : Precise view x :=
  fun m _ _ => h m

theorem Total.precise {x : Exec σ α} (h : x.Total) : Precise view x :=
  fun m f hf => (h m f hf).elim

theorem keeps_pure (v : α) : Keeps view (pure v : Exec σ α) := fun _ => rfl

theorem keeps_throw (f : Fault) : Keeps view (throw f : Exec σ α) := fun _ => rfl

theorem keeps_cpu : Keeps view (cpu : Exec σ Cpu) := fun _ => rfl

theorem Keeps.bind {x : Exec σ α} {f : α → Exec σ β} (hx : Keeps view x)
    (hf : ∀ v, Keeps view (f v)) : Keeps view (x >>= f) := by
  intro m
  have hm := hx m
  rw [outcome_bind]
  generalize outcome x m = p at hm ⊢
  obtain ⟨e | v, m'⟩ := p
  · exact hm
  · exact (hf v m').trans hm

theorem Keeps.ite {c : Prop} [Decidable c] {x y : Exec σ α} (hx : Keeps view x)
    (hy : Keeps view y) : Keeps view (if c then x else y) := by
  split
  · exact hx
  · exact hy

/-- **First parts.** Parts that only look at the machine may stand before others. -/
theorem Keeps.precise_bind {x : Exec σ α} {f : α → Exec σ β} (hx : Keeps view x)
    (hf : ∀ v, Precise view (f v)) : Precise view (x >>= f) := by
  intro m e he
  have hm := hx m
  rw [outcome_bind] at he ⊢
  generalize outcome x m = p at hm he ⊢
  obtain ⟨e' | v, m'⟩ := p
  · exact hm
  · exact (hf v m' e he).trans hm

/-- **Last parts.** Parts that cannot fail may stand behind others. -/
theorem Precise.bind_total {x : Exec σ α} {f : α → Exec σ β} (hx : Precise view x)
    (hf : ∀ v, (f v).Total) : Precise view (x >>= f) := by
  intro m e he
  have hm := hx m
  rw [outcome_bind] at he ⊢
  generalize outcome x m = p at hm he ⊢
  obtain ⟨e' | v, m'⟩ := p
  · exact hm e' rfl
  · exact (hf v m' e he).elim

theorem keeps_invalidOpcode : Keeps view (invalidOpcode : Exec σ α) :=
  keeps_cpu.bind fun _ => keeps_throw _

/-- Accesses leave the registers. -/
theorem keeps_access (act : BusM σ α) : Keeps Machine.cpu (access act) := by
  intro m
  rw [outcome_access]
  generalize outcome act m.bus = p
  obtain ⟨e | v, bus⟩ := p
  · rfl
  · rfl

end

/-! ### Memory -/

section
variable {α γ : Type} {view : Machine Memory → γ}

/-- Reads leave the machine. -/
theorem keeps_ask (f : Memory → Except MemoryError α) : Keeps view (access (Memory.ask f)) := by
  intro m
  rw [outcome_access_ask]

/-- Writes that fail leave the machine. -/
theorem precise_store (enforce : Bool) (a : UInt64) (data : ByteArray) :
    Precise view (access (Memory.store enforce a data)) := by
  intro m f hf
  rw [outcome_access, Memory.outcome_store] at hf ⊢
  cases herror : m.bus.accessError? .write enforce a data.size with
  | none =>
    rw [herror] at hf
    exact nomatch hf
  | some e => rfl

end

end Exec

/-! ### Operands -/

namespace Location

open Exec

/-- Reading an operand leaves the registers, whatever the bus. -/
theorem keeps_cpu_read {σ : Type} [Bus σ] (l : Location) (w : Width) :
    Keeps Machine.cpu (l.read w : Exec σ UInt64) := by
  cases l with
  | reg r => exact keeps_cpu.bind fun _ => keeps_pure _
  | vec v => exact keeps_invalidOpcode
  | mem m => exact keeps_cpu.bind fun _ => keeps_access _
  | imm v => exact keeps_pure _

variable {γ : Type} {view : Machine Memory → γ} (l : Location) (w : Width)

/-- To read an operand leaves everything. -/
theorem keeps_read : Keeps view (l.read w) := by
  cases l with
  | reg r => exact keeps_cpu.bind fun _ => keeps_pure _
  | vec v => exact keeps_invalidOpcode
  | mem m => exact keeps_cpu.bind fun _ => keeps_ask _
  | imm v => exact keeps_pure _

variable {l w} in
/-- An operand that can be read has a value, and reading it has no other effect. -/
theorem outcome_read_of_ok {m : Machine Memory} {v : UInt64} (h : (outcome (l.read w) m).1 = .ok v) :
    outcome (l.read w) m = (.ok v, m) := by
  have hkept : Keeps id (l.read w : Exec Memory UInt64) := l.keeps_read w
  exact Prod.ext h (hkept m)

/-- An operand is written as a whole or not at all. -/
theorem precise_write (v : UInt64) : Precise view (l.write w v) := by
  cases l with
  | reg r => exact Total.precise (faultsIn_modifyCpu _)
  | vec v => exact keeps_invalidOpcode.precise
  | mem m => exact keeps_cpu.precise_bind fun _ => precise_store true _ _
  | imm v => exact keeps_invalidOpcode.precise

/-- An operand of 128 bits is written as a whole or not at all. -/
theorem precise_writeXmm (x : BitVec 128) : Precise view (l.writeXmm x) := by
  cases l with
  | reg r => exact keeps_invalidOpcode.precise
  | vec v => exact Total.precise (faultsIn_modifyCpu _)
  | mem m => exact keeps_cpu.precise_bind fun _ => precise_store true _ _
  | imm v => exact keeps_invalidOpcode.precise

end Location

/-- A write to a register cannot fail. -/
theorem Operand.Target.total_write {o : Operand} {w : Width} (h : o.Target w)
    (hmem : o.isMem = false) (next v : UInt64) :
    ((o.bind next).write w v : Exec Memory Unit).Total := by
  cases o with
  | reg r => exact Exec.faultsIn_modifyCpu _
  | vec v => exact absurd h id
  | mem a => exact nomatch hmem
  | imm v => exact absurd h id

/-- Binding keeps memory operands in memory. -/
theorem Operand.isMem_bind (o : Operand) (next : UInt64) : (o.bind next).isMem = o.isMem := by
  cases o <;> rfl

end Amd64
