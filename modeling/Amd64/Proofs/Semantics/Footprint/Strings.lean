import Amd64.Proofs.Machine.Views
import Amd64.Proofs.Semantics.Footprint.Integer
import Amd64.Semantics.Routines
import Amd64.Semantics.Strings

namespace Amd64

/-!
# What string instructions and routines touch

* `Cpu.count`                 — the count register;
* `Cpu.elementAddress`        — where the elements of a string are;
* `Cpu.Advances`              — pointers that have moved past one element;
* `Exec.carries_stringStep`   — the work on one element moves the pointers that it uses;
* `Exec.carries_stringRounds` — a repetition, by induction on its rounds;
* `Exec.carries_intrinsic`    — a routine changes two registers once it is over.
-/

/-- Cutting one part of a sum does not change the low bits. -/
theorem Width.truncate_truncate_add (w : Width) (a b : UInt64) :
    w.truncate (w.truncate a + b) = w.truncate (a + b) := by
  have hdvd : w.modulus ∣ 2 ^ 64 := by cases w <;> decide
  rw [← UInt64.toNat_inj, toNat_truncate, toNat_truncate, toNat, toNat, UInt64.toNat_add,
    UInt64.toNat_add, Nat.mod_mod_of_dvd _ hdvd, Nat.mod_mod_of_dvd _ hdvd, toNat_truncate, toNat,
    Nat.mod_add_mod]

/-- The pointers that a string instruction uses, in the reverse of the order in which they move. -/
def StringOp.pointers : StringOp → List Gpr
  | movs | cmps => [.rdi, .rsi]
  | stos | scas => [.rdi]
  | lods => [.rsi]

/-- The pointers through which accesses of a kind are made. -/
def StringOp.accessed (op : StringOp) (k : Access) : List Gpr :=
  match op, k with
  | movs, .read | lods, .read => [.rsi]
  | movs, .write | stos, .write | scas, .read => [.rdi]
  | cmps, .read => [.rsi, .rdi]
  | _, _ => []

/-- Every pointer that is used is moved. -/
theorem StringOp.mem_pointers_of_accessed (op : StringOp) {k : Access} {g : Gpr}
    (h : g ∈ op.accessed k) : g ∈ op.pointers := by
  cases op <;> cases k <;> revert g <;> decide

/-- The registers that the work on one element changes. -/
def StringOp.gprEffect : StringOp → List Gpr
  | lods => [.rax, .rsi]
  | op => op.pointers

/-- The flags that a string instruction writes. -/
def StringOp.flagEffect (op : StringOp) : Flags :=
  if op.compares then .status else .empty

/-- What a string instruction with a number of rounds changes. -/
def StringOp.effect (op : StringOp) (times : Repeat) (rounds : Nat) : Effect :=
  if rounds = 0 then ⟨[], .empty⟩
  else if times = .none then ⟨op.gprEffect, op.flagEffect⟩
  else ⟨.rcx :: op.gprEffect, op.flagEffect⟩

/-- The count register: `ecx` where addresses have 32 bits, else `rcx`. -/
def Cpu.count (s : Cpu) (narrow : Bool) : UInt64 :=
  s.readReg (.low .rcx (if narrow then .w32 else .w64))

/-- How many elements a string instruction works on at most. -/
def Cpu.rounds (s : Cpu) (times : Repeat) (narrow : Bool) : Nat :=
  match times with
  | .none => 1
  | _ => (s.count narrow).toNat

/-- How far apart elements `0` and `k` are, in the direction of the string. -/
def Cpu.distance (s : Cpu) (w : Width) (k : Nat) : UInt64 :=
  let d := UInt64.ofNat (k * w.bytes)
  if s.flags.direction then -d else d

/-- The address of element `k` of the string that a pointer points to. No base of a segment is added. -/
def Cpu.elementAddress (s : Cpu) (w : Width) (narrow : Bool) (pointer : Gpr) (k : Nat) : UInt64 :=
  let width : Width := if narrow then .w32 else .w64
  width.truncate (s.gpr pointer + s.distance w k)

/-- From `s` to `t`, the pointers in `moved` have moved past one element, and other pointers have not. -/
structure Cpu.Advances (s : Cpu) (e : Effect) (w : Width) (narrow : Bool) (moved : List Gpr)
    (t : Cpu) : Prop where
  changes : s.ChangesOnly e t
  direction : t.flags.direction = s.flags.direction
  next : ∀ g ∈ moved, ∀ k,
    t.elementAddress w narrow g k = s.elementAddress w narrow g (k + 1)
  kept : ∀ g, g ∉ moved → g = .rsi ∨ g = .rdi → t.gpr g = s.gpr g

namespace Cpu

variable {s t : Cpu} {e : Effect} {w : Width} {narrow : Bool} {moved : List Gpr} {g : Gpr}

/-- The count register is as wide as the pointers. -/
theorem count_eq (s : Cpu) (narrow : Bool) : s.count narrow = s.readReg (.low .rcx (pointerWidth narrow)) := rfl

/-- So are the addresses of elements. -/
theorem elementAddress_eq (s : Cpu) (w : Width) (narrow : Bool) (pointer : Gpr) (k : Nat) :
    s.elementAddress w narrow pointer k =
      (pointerWidth narrow).truncate (s.gpr pointer + s.distance w k) := rfl

/-- Distances depend on the direction only. -/
theorem distance_congr (h : t.flags.direction = s.flags.direction) (k : Nat) :
    t.distance w k = s.distance w k := by
  rw [distance, distance, h]

theorem distance_zero (s : Cpu) (w : Width) : s.distance w 0 = 0 := by
  simp [distance]

/-- Each round moves a pointer by the same distance. -/
theorem distance_succ (s : Cpu) (w : Width) (k : Nat) :
    s.distance w (k + 1) = s.distance w 1 + s.distance w k := by
  have hsum : UInt64.ofNat ((k + 1) * w.bytes) =
      UInt64.ofNat (1 * w.bytes) + UInt64.ofNat (k * w.bytes) := by
    rw [← UInt64.ofNat_add, Nat.add_mul, Nat.add_comm]
  simp only [distance, hsum]
  split
  · rw [UInt64.neg_add, UInt64.sub_eq_add_neg]
  · rfl

/-- A pointer is at the first element. -/
theorem elementAddress_zero (s : Cpu) (w : Width) (narrow : Bool) (g : Gpr) :
    s.elementAddress w narrow g 0 = s.readReg (.low g (pointerWidth narrow)) := by
  rw [elementAddress_eq, distance_zero, UInt64.add_zero]
  rfl

/-- Before the pointers move, at most flags and the accumulator change. -/
theorem ChangesOnly.advances (h : s.ChangesOnly e t) (hdirection : t.flags.direction = s.flags.direction)
    (hkept : ∀ g, g = .rsi ∨ g = .rdi → t.gpr g = s.gpr g) : s.Advances e w narrow [] t :=
  ⟨h, hdirection, by simp, fun g _ hg => hkept g hg⟩

/-- Before its first round, no pointer has moved. -/
theorem Agrees.advances (h : s.Agrees t) : s.Advances e w narrow [] t :=
  h.changesOnly.advances (by rw [h.flags]) fun g _ => by rw [h.gpr]

/-- The pointer at the address of the next element. -/
theorem gpr_writeReg_pointer (t : Cpu) (g : Gpr) (v : UInt64) :
    (t.writeReg (.low g (pointerWidth narrow)) v).gpr g = (pointerWidth narrow).truncate v := by
  cases narrow with
  | false =>
    have hwhole : Width.w64.truncate v = v := by
      rw [← UInt64.toNat_inj, Width.toNat_truncate]
      exact Nat.mod_eq_of_lt v.toNat_lt
    exact (gpr_setGpr_self t g v).trans hwhole.symm
  | true => exact gpr_setGpr_self t g _

/-- A pointer past one element. -/
def pastElement (t : Cpu) (w : Width) (pointer : Reg) : UInt64 :=
  if t.flags.direction then t.readReg pointer - UInt64.ofNat w.bytes
  else t.readReg pointer + UInt64.ofNat w.bytes

/-- The address behind an element is one distance on. -/
theorem pastElement_eq (t : Cpu) (w : Width) (pointer : Reg) :
    t.pastElement w pointer = t.readReg pointer + t.distance w 1 := by
  rw [pastElement, distance, Nat.one_mul]
  split
  · exact UInt64.sub_eq_add_neg _ _
  · rfl

/-- A pointer that has not moved yet moves past one element. -/
theorem Advances.advance (h : s.Advances e w narrow moved t) (hnew : g ∉ moved)
    (hpointer : g = .rsi ∨ g = .rdi) (hg : g ∈ e.gprs) :
    s.Advances e w narrow (g :: moved)
      (t.writeReg (.low g (pointerWidth narrow)) (t.pastElement w (.low g (pointerWidth narrow)))) := by
  -- the pointer moved now still holds what it held before the other one moved
  have hvalue : t.pastElement w (.low g (pointerWidth narrow)) =
      (pointerWidth narrow).truncate (s.gpr g) + s.distance w 1 := by
    rw [pastElement_eq, readReg, h.kept g hnew hpointer, distance_congr h.direction]
  have hother : ∀ k, k ≠ g → ∀ v, (t.writeReg (.low g (pointerWidth narrow)) v).gpr k = t.gpr k :=
    fun k hk v => gpr_writeReg_of_ne t (r := .low g (pointerWidth narrow)) (Ne.symm hk) v
  rw [hvalue]
  refine ⟨h.changes.writeReg (r := .low g _) hg _, by rw [flags_writeReg, h.direction], ?_, ?_⟩
  · intro k hk i
    have hdistance : ∀ v, (t.writeReg (.low g (pointerWidth narrow)) v).distance w i =
        s.distance w i := fun v => distance_congr (by rw [flags_writeReg, h.direction]) i
    by_cases heq : k = g
    · -- the first element now is the second one of before
      subst heq
      rw [elementAddress_eq, elementAddress_eq, hdistance, gpr_writeReg_pointer,
        Width.truncate_truncate_add, UInt64.add_assoc, Width.truncate_truncate_add, ← distance_succ]
    · have hnext := h.next k (List.mem_of_ne_of_mem heq hk) i
      rw [elementAddress_eq, distance_congr h.direction] at hnext
      rw [elementAddress_eq, hdistance, hother k heq, hnext]
  · intro k hk hpointers
    -- a register that stays behind is neither this pointer nor one moved before
    have hne : k ≠ g := fun heq => hk (heq ▸ List.mem_cons_self)
    have hold : k ∉ moved := fun hin => hk (List.mem_cons_of_mem g hin)
    rw [hother k hne, h.kept k hold hpointers]

/-- The count register is none of the pointers. -/
theorem Advances.countDown (h : s.Advances e w narrow moved t) (hmoved : .rcx ∉ moved)
    (hrcx : .rcx ∈ e.gprs) (n : Width) (v : UInt64) :
    s.Advances e w narrow moved (t.writeReg (.low .rcx n) v) := by
  have hother : ∀ g, g ≠ .rcx → (t.writeReg (.low .rcx n) v).gpr g = t.gpr g :=
    fun g hg => gpr_writeReg_of_ne t (r := .low .rcx n) (Ne.symm hg) v
  refine ⟨h.changes.writeReg (r := .low .rcx n) hrcx v, by rw [flags_writeReg, h.direction], ?_, ?_⟩
  · intro g hg k
    have hne : g ≠ .rcx := fun heq => hmoved (heq ▸ hg)
    have hdistance : (t.writeReg (.low .rcx n) v).distance w k = t.distance w k :=
      distance_congr (by rw [flags_writeReg]) k
    rw [← h.next g hg k, elementAddress_eq, elementAddress_eq, hdistance, hother g hne]
  · intro g hg hpointer
    have hne : g ≠ .rcx := by
      rintro rfl
      simp at hpointer
    rw [hother g hne, h.kept g hg hpointer]

end Cpu

namespace Exec

variable {σ : Type} [Bus σ] {log : σ → List Attempt} (hlog : Bus.Logs log)
  {A : Access → UInt64 → Prop}  {s : Cpu} {gs : List Gpr} {w : Width} {narrow : Bool}

/-! ### String instructions -/

omit [Bus σ] in
/-- A pointer that has not moved yet is moved once. -/
theorem carries_advance {e : Effect} {moved : List Gpr} {g : Gpr} (hnew : g ∉ moved)
    (hpointer : g = .rsi ∨ g = .rdi) (hg : g ∈ e.gprs) :
    Carries log A (s.Advances e w narrow moved) (s.Advances e w narrow (g :: moved))
      (advance (.low g (pointerWidth narrow)) w : Exec σ Unit) := by
  refine carries_cpu_eq fun t ht => carries_modifyCpu (f := (·.writeReg _ _)) ?_
  rintro _ rfl
  exact ht.advance hnew hpointer hg

omit [Bus σ] in
/-- A comparison of elements sets flags. -/
theorem carries_compareElements (a b : UInt64) :
    Carries log A s.Agrees (s.Advances ⟨gs, .status⟩ w narrow [])
      (compareElements w a b : Exec σ Unit) := by
  refine carries_cpu fun t ht => carries_modifyCpu (f := (·.setFlags _)) fun u hu => ?_
  rw [← ht.flags]
  have hsame := s.flags.sameOutside_subFlags w a b false
  have hchanges : s.ChangesOnly ⟨gs, .status⟩ (u.setFlags (subFlags s.flags w a b false).2) :=
    hu.changesOnly.setFlags hsame
  refine hchanges.advances (hsame.direction rfl) fun g _ => ?_
  show u.gpr g = s.gpr g
  rw [hu.gpr]

omit [Bus σ] in
/-- An element is loaded into the accumulator. -/
theorem carries_writeAcc (hrax : .rax ∈ gs) (v : UInt64) :
    Carries log A s.Agrees (s.Advances ⟨gs, .empty⟩ w narrow [])
      (writeReg (.low .rax w) v : Exec σ Unit) := by
  refine carries_modifyCpu (f := (·.writeReg _ _)) fun t ht => ?_
  have hchanges : s.ChangesOnly ⟨gs, .empty⟩ t := ht.changesOnly
  refine (hchanges.writeReg (r := .low .rax w) hrax v).advances ?_ fun g hg => ?_
  · rw [Cpu.flags_writeReg, ht.flags]
  · have hne : (Reg.low .rax w).gpr ≠ g := by
      rintro rfl
      simp [Reg.gpr] at hg
    rw [Cpu.gpr_writeReg_of_ne t hne, ht.gpr]

include hlog in
/-- **One element.** The work on an element is done at the pointers, and moves those that it uses. -/
theorem carries_stringStep (op : StringOp) (hgs : ∀ g ∈ op.gprEffect, g ∈ gs)
    (hA : ∀ k, ∀ g ∈ op.accessed k, A k (s.elementAddress w narrow g 0)) :
    Carries log A s.Agrees (s.Advances ⟨gs, op.flagEffect⟩ w narrow op.pointers)
      (stringStep op w narrow : Exec σ Unit) := by
  have hread : ∀ g ∈ op.accessed .read, Carries log A s.Agrees s.Agrees
      (access (Bus.readWord w (s.readReg (.low g (pointerWidth narrow)))) : Exec σ UInt64) :=
    fun g hg => carries_readWord hlog (s.elementAddress_zero w narrow g ▸ hA .read g hg) w
  have hwrite : ∀ g ∈ op.accessed .write, ∀ v, Carries log A s.Agrees s.Agrees
      (access (Bus.writeWord w (s.readReg (.low g (pointerWidth narrow))) v) : Exec σ Unit) :=
    fun g hg v => carries_writeWord hlog (s.elementAddress_zero w narrow g ▸ hA .write g hg) w v
  -- pointers move one after the other, behind everything else
  have hadvance : ∀ {e : Effect} (moved : List Gpr) (g : Gpr), g ∉ moved → g = .rsi ∨ g = .rdi →
      g ∈ e.gprs → Carries log A (s.Advances e w narrow moved) (s.Advances e w narrow (g :: moved))
        (advance (.low g (pointerWidth narrow)) w : Exec σ Unit) :=
    fun _ _ hnew hpointer hg => carries_advance hnew hpointer hg
  refine carries_cpu fun t ht => ?_
  rw [← ht.readReg]
  cases op with
  | movs =>
    exact (hread .rsi (by decide)).bind fun v => (hwrite .rdi (by decide) v).bind fun _ =>
      ((hadvance [] .rsi (by decide) (by decide) (hgs _ (by decide))).pre
        fun _ hu => hu.advances).bind fun _ =>
      hadvance [.rsi] .rdi (by decide) (by decide) (hgs _ (by decide))
  | stos =>
    exact (hwrite .rdi (by decide) _).bind fun _ =>
      (hadvance [] .rdi (by decide) (by decide) (hgs _ (by decide))).pre fun _ hu => hu.advances
  | lods =>
    exact (hread .rsi (by decide)).bind fun v => (carries_writeAcc (hgs _ (by decide)) v).bind fun _ =>
      hadvance [] .rsi (by decide) (by decide) (hgs _ (by decide))
  | cmps =>
    exact (hread .rsi (by decide)).bind fun a => (hread .rdi (by decide)).bind fun b =>
      (carries_compareElements a b).bind fun _ =>
      (hadvance [] .rsi (by decide) (by decide) (hgs _ (by decide))).bind fun _ =>
      hadvance [.rsi] .rdi (by decide) (by decide) (hgs _ (by decide))
  | scas =>
    exact (hread .rdi (by decide)).bind fun b => (carries_compareElements _ b).bind fun _ =>
      hadvance [] .rdi (by decide) (by decide) (hgs _ (by decide))

include hlog in
/-- **Rounds.** Up to `n` rounds work on the first `n` elements. -/
theorem carries_stringRounds (op : StringOp) (times : Repeat) (hgs : ∀ g ∈ op.gprEffect, g ∈ gs)
    (hrcx : .rcx ∈ gs) (n : Nat)
    (hA : ∀ k, ∀ g ∈ op.accessed k, ∀ j < n, A k (s.elementAddress w narrow g j)) :
    Carries log A s.Agrees (s.ChangesOnly ⟨gs, op.flagEffect⟩)
      (stringRounds op w times narrow n : Exec σ Unit) := by
  -- induction on the rounds that are left, which start where the pointers have moved to
  induction n generalizing s with
  | zero => exact carries_pure (fun _ hu => hu.changesOnly) ()
  | succ n ih =>
    have hcount : Gpr.rcx ∉ op.pointers := by cases op <;> decide
    refine (carries_stringStep hlog op hgs fun k g hg => hA k g hg 0 (Nat.succ_pos n)).bind fun _ => ?_
    refine Carries.bind (Q := s.Advances ⟨gs, op.flagEffect⟩ w narrow op.pointers) ?_ fun _ => ?_
    · exact carries_cpu fun t ht => carries_modifyCpu (f := (·.writeReg _ _)) fun u hu =>
        hu.countDown hcount hrcx _ _
    · refine carries_cpu_eq fun t ht => Carries.ite ?_ ?_
      · refine carries_pure ?_ ()
        rintro _ rfl
        exact ht.changes
      · have hrest := ih (s := t) fun k g hg j hj => by
          rw [ht.next g (op.mem_pointers_of_accessed hg) j]
          exact hA k g hg (j + 1) (Nat.succ_lt_succ hj)
        refine hrest.mono ?_ fun u hu => ht.changes.trans hu
        rintro _ rfl
        exact Cpu.agrees_refl _

include hlog in
/-- **String instructions.** They change nothing if the count register is zero. -/
theorem carries_string (op : StringOp) (times : Repeat)
    (hA : ∀ k, ∀ g ∈ op.accessed k, ∀ j < s.rounds times narrow,
      A k (s.elementAddress w narrow g j)) :
    Carries log A s.Agrees (s.ChangesOnly (op.effect times (s.rounds times narrow)))
      (string op w times narrow : Exec σ Unit) := by
  -- whatever kind of repetition it is, the count register decides how many rounds there are at most
  have hrepeat : times ≠ .none → s.rounds times narrow =
      (s.readReg (.low .rcx (pointerWidth narrow))).toNat → Carries log A s.Agrees
        (s.ChangesOnly (op.effect times (s.rounds times narrow)))
        (cpu >>= fun t => stringRounds op w times narrow
          (t.readReg (.low .rcx (pointerWidth narrow))).toNat : Exec σ Unit) := by
    intro htimes hrounds
    refine carries_cpu fun t ht => ?_
    rw [← ht.readReg, ← hrounds]
    by_cases hzero : s.rounds times narrow = 0
    · rw [hzero]
      exact carries_pure (fun _ hu => hu.changesOnly) ()
    · have heffect : op.effect times (s.rounds times narrow) =
          ⟨.rcx :: op.gprEffect, op.flagEffect⟩ := by
        simp [StringOp.effect, hzero, htimes]
      rw [heffect]
      exact carries_stringRounds hlog op times (fun g hg => List.mem_cons_of_mem _ hg)
        List.mem_cons_self _ hA
  cases times with
  | none =>
    exact (carries_stringStep hlog op (fun _ hg => hg) fun k g hg => hA k g hg 0 Nat.one_pos).post
      fun _ hu => hu.changes
  | rep => exact hrepeat nofun rfl
  | repe => exact hrepeat nofun rfl
  | repne => exact hrepeat nofun rfl

/-! ### Routines -/

section
variable (hA : ∀ k a, A k a)

include hlog hA

/-- A search reads single bytes. -/
theorem carries_scanFor (stop : UInt8 → Bool) (n : Nat) (a : UInt64) :
    Carries log A s.Agrees s.Agrees (scanFor stop n a : Exec σ UInt64) := by
  induction n generalizing a with
  | zero => exact carries_throw _
  | succ n ih =>
    exact (carries_readWord hlog (hA .read a) .w8).bind fun b =>
      Carries.ite (carries_pure (fun _ hu => hu) a) (ih (a + 1))

/-- A block of bytes is read. -/
theorem carries_readBytes (a : UInt64) (n : Nat) :
    Carries log A s.Agrees s.Agrees (access (Bus.readBytes a n) : Exec σ ByteArray) :=
  carries_access fun b => (hlog.readBytes a n b).mono fun k x _ => hA k x

/-- A block of bytes is written. -/
theorem carries_writeBytes (a : UInt64) (bs : ByteArray) :
    Carries log A s.Agrees s.Agrees (access (Bus.writeBytes a bs) : Exec σ Unit) :=
  carries_access fun b => (hlog.writeBytes a bs b).mono fun k x _ => hA k x

/-- A copy reads and writes blocks. -/
theorem carries_copyBytes (target source : UInt64) (n : Nat) :
    Carries log A s.Agrees s.Agrees (copyBytes target source n : Exec σ Unit) := by
  -- each chunk leaves fewer bytes
  induction n using Nat.strongRecOn generalizing target source with
  | ind n ih =>
    unfold copyBytes
    by_cases hn : n = 0
    · rw [if_pos hn]
      exact carries_pure (fun _ hu => hu) ()
    · rw [if_neg hn]
      refine (carries_readBytes hlog hA _ _).bind fun bs =>
        (carries_writeBytes hlog hA _ bs).bind fun _ => ih _ ?_ _ _
      simp only [chunkSize]
      omega

/-- A fill writes blocks. -/
theorem carries_fillBytes (target : UInt64) (b : UInt8) (n : Nat) :
    Carries log A s.Agrees s.Agrees (fillBytes target b n : Exec σ Unit) := by
  induction n using Nat.strongRecOn generalizing target with
  | ind n ih =>
    unfold fillBytes
    by_cases hn : n = 0
    · rw [if_pos hn]
      exact carries_pure (fun _ hu => hu) ()
    · rw [if_neg hn]
      refine (carries_writeBytes hlog hA _ _).bind fun _ => ih _ ?_ _
      simp only [chunkSize]
      omega

/-- A routine makes accesses and leaves the registers. -/
theorem carries_routine (id : Intrinsic) (t : Cpu) :
    Carries log A s.Agrees s.Agrees (routine id t : Exec σ UInt64) := by
  cases id with
  | strlen => exact (carries_scanFor hlog hA _ _ _).bind fun _ => carries_pure (fun _ hu => hu) _
  | strchrnul => exact carries_scanFor hlog hA _ _ _
  | memcpy => exact (carries_copyBytes hlog hA _ _ _).bind fun _ => carries_pure (fun _ hu => hu) _
  | memset => exact (carries_fillBytes hlog hA _ _ _).bind fun _ => carries_pure (fun _ hu => hu) _

/-- A routine returns: its result and the stack pointer are all that changes. -/
theorem carries_intrinsic (id : Intrinsic) :
    Carries log A s.Agrees (s.ChangesOnly ⟨[.rax, .rsp], .empty⟩) (intrinsic id : Exec σ UInt64) :=
  carries_cpu fun t _ => (carries_readWord hlog (hA .read _) .w64).bind fun target =>
    (carries_routine hlog hA id t).bind fun result =>
    (carries_setGpr (by simp) result).ofAgrees.bind fun _ =>
    (carries_setGpr (by simp) _).bind fun _ => carries_pure (fun _ hu => hu) target

end

end Exec

end Amd64
