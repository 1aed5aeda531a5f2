import Amd64.Proofs.Simulation.Basic

namespace Amd64

/-!
# What computations touch

A computation changes some of the registers and makes accesses at some addresses. Both are followed along its
parts, from what is known of the registers before a part to what is known of them after it.

* `Effect`, `Cpu.ChangesOnly`  — the general-purpose registers and flags that may change;
* `Attempt`, `Bus.Logs`        — accesses, and a list that grows by each access at most;
* `Exec.Carries`               — registers with `P` are left with `Q`, and accesses are made where `A` holds;
* `Carries.bind`, `carries_cpu`, … — the parts of a computation;
* `Location.carries_read`, `Location.carries_write`, … — operands.
-/

/-! ### Changes of registers -/

/-- The flags outside of `mask` are the same. Bit 1 stays set. -/
structure Flags.SameOutside (mask f g : Flags) : Prop where
  carry : mask.carry = false → g.carry = f.carry
  parity : mask.parity = false → g.parity = f.parity
  adjust : mask.adjust = false → g.adjust = f.adjust
  zero : mask.zero = false → g.zero = f.zero
  sign : mask.sign = false → g.sign = f.sign
  direction : mask.direction = false → g.direction = f.direction
  overflow : mask.overflow = false → g.overflow = f.overflow
  reserved : f.reserved = true → g.reserved = true

theorem Flags.sameOutside_refl (mask f : Flags) : mask.SameOutside f f := by
  constructor <;> intro h
  case reserved => exact h
  all_goals rfl

theorem Flags.SameOutside.trans {mask f g k : Flags} (h : mask.SameOutside f g)
    (h' : mask.SameOutside g k) : mask.SameOutside f k where
  carry hm := (h'.carry hm).trans (h.carry hm)
  parity hm := (h'.parity hm).trans (h.parity hm)
  adjust hm := (h'.adjust hm).trans (h.adjust hm)
  zero hm := (h'.zero hm).trans (h.zero hm)
  sign hm := (h'.sign hm).trans (h.sign hm)
  direction hm := (h'.direction hm).trans (h.direction hm)
  overflow hm := (h'.overflow hm).trans (h.overflow hm)
  reserved hf := h'.reserved (h.reserved hf)

/-- General-purpose registers and flags that may change. -/
structure Effect where
  gprs : List Gpr
  flags : Flags
deriving DecidableEq

/-- No more changes from `s` to `t` than `e` says, apart from vector registers. -/
structure Cpu.ChangesOnly (s : Cpu) (e : Effect) (t : Cpu) : Prop where
  rip : t.rip = s.rip
  fsBase : t.fsBase = s.fsBase
  gsBase : t.gsBase = s.gsBase
  gpr : ∀ g, g ∉ e.gprs → t.gpr g = s.gpr g
  flags : e.flags.SameOutside s.flags t.flags

namespace Cpu

variable {s t : Cpu} {e : Effect}

theorem agrees_refl (s : Cpu) : s.Agrees s := ⟨rfl, rfl, rfl, rfl, rfl⟩

/-- A vector register is none of those that agree. -/
theorem Agrees.setVec (h : s.Agrees t) (i : Fin 16) (r : VectorReg) : s.Agrees (t.setVec i r) :=
  ⟨h.gprs, h.rip, h.flags, h.fsBase, h.gsBase⟩

/-- Vector registers may always change. -/
theorem Agrees.changesOnly (h : s.Agrees t) : s.ChangesOnly e t where
  rip := h.rip.symm
  fsBase := h.fsBase.symm
  gsBase := h.gsBase.symm
  gpr g _ := by rw [h.gpr]
  flags := by
    rw [h.flags]
    exact Flags.sameOutside_refl _ _

namespace ChangesOnly

theorem trans {u : Cpu} (h : s.ChangesOnly e t) (h' : t.ChangesOnly e u) : s.ChangesOnly e u where
  rip := h'.rip.trans h.rip
  fsBase := h'.fsBase.trans h.fsBase
  gsBase := h'.gsBase.trans h.gsBase
  gpr g hg := (h'.gpr g hg).trans (h.gpr g hg)
  flags := h.flags.trans h'.flags

/-- A register of the effect may be replaced. -/
theorem setGpr (h : s.ChangesOnly e t) {g : Gpr} (hg : g ∈ e.gprs) (v : UInt64) :
    s.ChangesOnly e (t.setGpr g v) where
  rip := h.rip
  fsBase := h.fsBase
  gsBase := h.gsBase
  gpr k hk := by
    have hne : g ≠ k := fun heq => hk (heq ▸ hg)
    rw [gpr_setGpr_of_ne t v hne]
    exact h.gpr k hk
  flags := h.flags

/-- A part of a register of the effect may be replaced. -/
theorem writeReg (h : s.ChangesOnly e t) {r : Reg} (hr : r.gpr ∈ e.gprs) (v : UInt64) :
    s.ChangesOnly e (t.writeReg r v) := by
  cases r with
  | low g w => cases w <;> exact h.setGpr hr _
  | high g => exact h.setGpr hr _

/-- Flags that are the same outside of a set replace flags that are all the same. -/
theorem setFlags {gs : List Gpr} {mask f : Flags} (h : s.ChangesOnly ⟨gs, .empty⟩ t)
    (hf : mask.SameOutside s.flags f) : s.ChangesOnly ⟨gs, mask⟩ (t.setFlags f) where
  rip := h.rip
  fsBase := h.fsBase
  gsBase := h.gsBase
  gpr := h.gpr
  flags := ⟨hf.carry, hf.parity, hf.adjust, hf.zero, hf.sign, hf.direction, hf.overflow, fun _ => rfl⟩

end ChangesOnly

end Cpu

/-! ### Accesses -/

/-- An access to data with its address, whether it succeeds or not. -/
structure Attempt where
  kind : Access
  address : UInt64
deriving DecidableEq, Inhabited

/-- From `b` to `c`, the list grows by accesses where `A` holds. -/
def Bus.Extends {σ : Type} (log : σ → List Attempt) (A : Access → UInt64 → Prop) (b c : σ) : Prop :=
  ∃ l, log c = log b ++ l ∧ ∀ x ∈ l, A x.kind x.address

namespace Bus

variable {σ : Type} {log : σ → List Attempt} {A : Access → UInt64 → Prop} {b c d : σ}

theorem extends_refl : Extends log A b b := ⟨[], (List.append_nil _).symm, by simp⟩

/-- Accesses of two parts are put together. -/
theorem Extends.trans (h : Extends log A b c) (h' : Extends log A c d) : Extends log A b d := by
  obtain ⟨l, hl, hA⟩ := h
  obtain ⟨l', hl', hA'⟩ := h'
  exact ⟨l ++ l', by rw [hl', hl, List.append_assoc], List.forall_mem_append.mpr ⟨hA, hA'⟩⟩

/-- Accesses may be allowed at more addresses. -/
theorem Extends.mono {B : Access → UInt64 → Prop} (h : Extends log A b c)
    (hAB : ∀ k a, A k a → B k a) : Extends log B b c := by
  obtain ⟨l, hl, hA⟩ := h
  exact ⟨l, hl, fun x hx => hAB x.kind x.address (hA x hx)⟩

/-- A list that grows by each access at most. A run of bytes may be transferred by any number of
    accesses. -/
structure Logs [Bus σ] (log : σ → List Attempt) : Prop where
  readWord : ∀ w a b, Extends log (fun k x => k = .read ∧ x = a) b
    (outcome (Bus.readWord w a : BusM σ UInt64) b).2
  readXmm : ∀ a b, Extends log (fun k x => k = .read ∧ x = a) b
    (outcome (Bus.readXmm a : BusM σ (BitVec 128)) b).2
  writeWord : ∀ w a v b, Extends log (fun k x => k = .write ∧ x = a) b
    (outcome (Bus.writeWord w a v : BusM σ Unit) b).2
  writeXmm : ∀ a v b, Extends log (fun k x => k = .write ∧ x = a) b
    (outcome (Bus.writeXmm a v : BusM σ Unit) b).2
  readBytes : ∀ a n b, Extends log (fun k _ => k = .read) b
    (outcome (Bus.readBytes a n : BusM σ ByteArray) b).2
  writeBytes : ∀ a bs b, Extends log (fun k _ => k = .write) b
    (outcome (Bus.writeBytes a bs : BusM σ Unit) b).2

/-- A list that stays empty. -/
theorem logs_nil (σ : Type) [Bus σ] : Logs fun _ : σ => [] := by
  constructor <;> intros <;> exact ⟨[], rfl, by simp⟩

end Bus

/-! ### Parts of computations -/

/-- From registers with `P`, the computation makes accesses where `A` holds only, and leaves registers with `Q`
    if it succeeds. -/
def Exec.Carries {σ α : Type} (log : σ → List Attempt) (A : Access → UInt64 → Prop) (P Q : Cpu → Prop)
    (x : Exec σ α) : Prop :=
  ∀ m, P m.cpu →
    (∀ v, (outcome x m).1 = .ok v → Q (outcome x m).2.cpu) ∧
      Bus.Extends log A m.bus (outcome x m).2.bus

namespace Exec

section
variable {σ α β : Type} {log : σ → List Attempt} {A : Access → UInt64 → Prop} {P Q R : Cpu → Prop}

theorem carries_pure (h : ∀ s, P s → Q s) (v : α) : Carries log A P Q (pure v : Exec σ α) :=
  fun _ hm => ⟨fun _ _ => h _ hm, Bus.extends_refl⟩

/-- A fault changes nothing and nothing comes behind it. -/
theorem carries_throw (f : Fault) : Carries log A P Q (throw f : Exec σ α) :=
  fun _ _ => ⟨nofun, Bus.extends_refl⟩

/-- A change of the registers makes no access. -/
theorem carries_modifyCpu {f : Cpu → Cpu} (h : ∀ s, P s → Q (f s)) :
    Carries log A P Q (modifyCpu f) :=
  fun _ hm => ⟨fun _ _ => h _ hm, Bus.extends_refl⟩

/-- A register of the effect is written. -/
theorem carries_setGpr {s : Cpu} {e : Effect} {g : Gpr} (hg : g ∈ e.gprs) (v : UInt64) :
    Carries log A (s.ChangesOnly e) (s.ChangesOnly e) (setGpr g v) :=
  carries_modifyCpu (f := (·.setGpr g v)) fun _ ht => ht.setGpr hg v

/-- A part of a register of the effect is written. -/
theorem carries_writeReg {s : Cpu} {e : Effect} {r : Reg} (hr : r.gpr ∈ e.gprs) (v : UInt64) :
    Carries log A (s.ChangesOnly e) (s.ChangesOnly e) (writeReg r v) :=
  carries_modifyCpu (f := (·.writeReg r v)) fun _ ht => ht.writeReg hr v

/-- Flags are written once, from what they were at first. -/
theorem carries_setFlags {s : Cpu} {gs : List Gpr} {mask f : Flags}
    (hf : mask.SameOutside s.flags f) :
    Carries log A (s.ChangesOnly ⟨gs, .empty⟩) (s.ChangesOnly ⟨gs, mask⟩) (setFlags f) :=
  carries_modifyCpu (f := (·.setFlags f)) fun _ ht => ht.setFlags hf

/-- Vector registers are free to change. -/
theorem carries_modifyVec {s : Cpu} (i : Fin 16) (f : VectorReg → VectorReg) :
    Carries log A s.Agrees s.Agrees (modifyVec i f) :=
  carries_modifyCpu (f := (·.modifyVec i f)) fun _ ht => ht.setVec i _

/-- To look at a vector register in another view may change how it is kept. -/
theorem carries_viewVec {s : Cpu} (i : Fin 16) (view : VectorReg → α × VectorReg) :
    Carries log A s.Agrees s.Agrees (viewVec i view) :=
  fun _ hm => ⟨fun _ _ => hm.setVec i _, Bus.extends_refl⟩

/-- What is done next may depend on the registers, of which nothing is forgotten. -/
theorem carries_cpu_eq {f : Cpu → Exec σ α} (h : ∀ t, P t → Carries log A (· = t) Q (f t)) :
    Carries log A P Q (cpu >>= f) :=
  fun m hm => h m.cpu hm m rfl

/-- A computation that begins with a look at the registers is followed from each of them. -/
theorem carries_cpu {f : Cpu → Exec σ α} (h : ∀ t, P t → Carries log A P Q (f t)) :
    Carries log A P Q (cpu >>= f) :=
  fun m hm => h m.cpu hm m hm

/-- **Sequences.** The second part starts where the first one leads to. -/
theorem Carries.bind {x : Exec σ α} {f : α → Exec σ β} (hx : Carries log A P Q x)
    (hf : ∀ v, Carries log A Q R (f v)) : Carries log A P R (x >>= f) := by
  intro m hm
  obtain ⟨hok, hlog⟩ := hx m hm
  rw [outcome_bind]
  generalize outcome x m = p at hok hlog ⊢
  obtain ⟨e | v, m'⟩ := p
  · exact ⟨nofun, hlog⟩
  · obtain ⟨hok', hlog'⟩ := hf v m' (hok v rfl)
    exact ⟨hok', hlog.trans hlog'⟩

/-- Of the registers that a failed part leaves behind nothing is known. -/
theorem Carries.tryCatch {x : Exec σ α} {handle : Fault → Exec σ α} (hx : Carries log A P Q x)
    (hf : ∀ f, Carries log A (fun _ => True) Q (handle f)) :
    Carries log A P Q (MonadExcept.tryCatch x handle) := by
  intro m hm
  obtain ⟨hok, hlog⟩ := hx m hm
  rw [outcome_tryCatch]
  generalize outcome x m = p at hok hlog ⊢
  obtain ⟨e | v, m'⟩ := p
  · obtain ⟨hok', hlog'⟩ := hf e m' trivial
    exact ⟨hok', hlog.trans hlog'⟩
  · exact ⟨hok, hlog⟩

theorem Carries.ite {c : Prop} [Decidable c] {x y : Exec σ α} (hx : Carries log A P Q x)
    (hy : Carries log A P Q y) : Carries log A P Q (if c then x else y) := by
  split
  · exact hx
  · exact hy

/-- More may be known before, and less after. -/
theorem Carries.mono {x : Exec σ α} {P' Q' : Cpu → Prop} (h : Carries log A P Q x)
    (hP : ∀ s, P' s → P s) (hQ : ∀ s, Q s → Q' s) : Carries log A P' Q' x := by
  intro m hm
  obtain ⟨hok, hlog⟩ := h m (hP _ hm)
  exact ⟨fun v hv => hQ _ (hok v hv), hlog⟩

theorem Carries.pre {x : Exec σ α} {P' : Cpu → Prop} (h : Carries log A P Q x)
    (hP : ∀ s, P' s → P s) : Carries log A P' Q x :=
  h.mono hP fun _ hs => hs

/-- What starts from changed registers may start from unchanged ones. -/
theorem Carries.ofAgrees {x : Exec σ α} {s : Cpu} {e : Effect}
    (h : Carries log A (s.ChangesOnly e) Q x) : Carries log A s.Agrees Q x :=
  h.pre fun _ ht => ht.changesOnly

theorem Carries.post {x : Exec σ α} {Q' : Cpu → Prop} (h : Carries log A P Q x)
    (hQ : ∀ s, Q s → Q' s) : Carries log A P Q' x :=
  h.mono (fun _ hs => hs) hQ

theorem carries_invalidOpcode : Carries log A P Q (invalidOpcode : Exec σ α) :=
  carries_cpu fun _ _ => carries_throw _

/-- An access leaves the registers as they are. -/
theorem carries_access {act : BusM σ α} (h : ∀ b, Bus.Extends log A b (outcome act b).2) :
    Carries log A P P (access act) := by
  intro m hm
  have hlog := h m.bus
  rw [outcome_access]
  generalize outcome act m.bus = p at hlog ⊢
  obtain ⟨e | v, bus⟩ := p
  · exact ⟨nofun, hlog⟩
  · exact ⟨fun _ _ => hm, hlog⟩

end

/-! ### Accesses at known addresses -/

section
variable {σ : Type} [Bus σ] {log : σ → List Attempt} (hlog : Bus.Logs log)
  {A : Access → UInt64 → Prop} {P : Cpu → Prop} {a : UInt64}

include hlog

theorem carries_readWord (ha : A .read a) (w : Width) :
    Carries log A P P (access (Bus.readWord w a) : Exec σ UInt64) :=
  carries_access fun b => (hlog.readWord w a b).mono fun _ _ ⟨hk, hx⟩ => hk ▸ hx ▸ ha

theorem carries_readXmm (ha : A .read a) :
    Carries log A P P (access (Bus.readXmm a) : Exec σ (BitVec 128)) :=
  carries_access fun b => (hlog.readXmm a b).mono fun _ _ ⟨hk, hx⟩ => hk ▸ hx ▸ ha

theorem carries_writeWord (ha : A .write a) (w : Width) (v : UInt64) :
    Carries log A P P (access (Bus.writeWord w a v) : Exec σ Unit) :=
  carries_access fun b => (hlog.writeWord w a v b).mono fun _ _ ⟨hk, hx⟩ => hk ▸ hx ▸ ha

theorem carries_writeXmm (ha : A .write a) (x : BitVec 128) :
    Carries log A P P (access (Bus.writeXmm a x) : Exec σ Unit) :=
  carries_access fun b => (hlog.writeXmm a x b).mono fun _ _ ⟨hk, hx⟩ => hk ▸ hx ▸ ha

end

end Exec

/-! ### Operands -/

namespace Location

/-- The general-purpose register that an operand is, if it is one. -/
def gprs : Location → List Gpr
  | reg r => [r.gpr]
  | _ => []

/-- If the operand is in memory, `A` holds of accesses of a kind at its address. -/
def Within (l : Location) (k : Access) (A : Access → UInt64 → Prop) (s : Cpu) : Prop :=
  match l with
  | mem m => A k (m.effective s)
  | _ => True

open Exec

variable {σ : Type} [Bus σ] {log : σ → List Attempt} (hlog : Bus.Logs log) {A : Access → UInt64 → Prop}
  {s : Cpu} {e : Effect} {l : Location}

section
variable (h : l.Within .read A s)

include hlog h

/-- Operands are read where they are. -/
theorem carries_read (w : Width) : Carries log A s.Agrees s.Agrees (l.read w : Exec σ UInt64) := by
  cases l with
  | reg r => exact carries_cpu fun _ _ => carries_pure (fun _ hs => hs) _
  | vec v => exact carries_invalidOpcode
  | mem m =>
    refine carries_cpu fun t ht => ?_
    rw [← ht.effective m]
    exact carries_readWord hlog h w
  | imm v => exact carries_pure (fun _ hs => hs) _

/-- The operand of a vector operation is read where it is. -/
theorem carries_readXmm :
    Carries log A s.Agrees s.Agrees (l.readXmm : Exec σ (BitVec 128)) := by
  cases l with
  | reg r => exact carries_invalidOpcode
  | vec v => exact carries_viewVec v.index VectorReg.xmm
  | mem m =>
    refine carries_cpu fun t ht => ?_
    rw [← ht.effective m]
    exact Exec.carries_readXmm hlog h
  | imm v => exact carries_invalidOpcode

end

section
variable (h : l.Within .write A s)

include hlog h

/-- An operand in memory is written where it is, and the registers stay. -/
theorem carries_write_mem (hmem : l.isMem = true) (w : Width) (v : UInt64) :
    Carries log A s.Agrees s.Agrees (l.write w v : Exec σ Unit) := by
  cases l with
  | mem m =>
    refine carries_cpu fun t ht => ?_
    rw [← ht.effective m]
    exact carries_writeWord hlog h w v
  | reg r => cases hmem
  | vec r => cases hmem
  | imm v => cases hmem

omit hlog h in
/-- An operand that is not in memory is written without an access. -/
theorem carries_write_reg (hreg : l.isMem = false) (hgpr : ∀ g ∈ l.gprs, g ∈ e.gprs) (w : Width)
    (v : UInt64) :
    Carries log A (s.ChangesOnly e) (s.ChangesOnly e) (l.write w v : Exec σ Unit) := by
  cases l with
  | reg r => exact carries_writeReg (hgpr r.gpr (by simp [gprs])) v
  | mem m => cases hreg
  | vec r => exact carries_invalidOpcode
  | imm v => exact carries_invalidOpcode

/-- A write reaches the registers of its operand and no others. -/
theorem carries_write (hgpr : ∀ g ∈ l.gprs, g ∈ e.gprs) (w : Width) (v : UInt64) :
    Carries log A s.Agrees (s.ChangesOnly e) (l.write w v : Exec σ Unit) := by
  cases hl : l.isMem with
  | true => exact (carries_write_mem hlog h hl w v).post fun _ ht => ht.changesOnly
  | false => exact (carries_write_reg hl hgpr w v).ofAgrees

/-- A vector register or 16 bytes are written. -/
theorem carries_writeXmm (x : BitVec 128) :
    Carries log A s.Agrees s.Agrees (l.writeXmm x : Exec σ Unit) := by
  cases l with
  | reg r => exact carries_invalidOpcode
  | vec v => exact carries_modifyVec v.index _
  | mem m =>
    refine carries_cpu fun t ht => ?_
    rw [← ht.effective m]
    exact Exec.carries_writeXmm hlog h x
  | imm v => exact carries_invalidOpcode

end

end Location

end Amd64
