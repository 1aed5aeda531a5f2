import Amd64.Machine.Snapshot
import Amd64.Proofs.Machine.Block

namespace Amd64

/-!
# Registers with the same contents

A vector register may keep a number beside its stored bits.  Nothing that a machine does depends on it.

* `Cpu.Equivalent`          — two processors hold the same, whatever their vector registers keep apart;
* `Cpu.equivalent_iff`      — these are the processors with the same snapshot;
* `Cpu.congruence_equivalent` — instructions see nothing else and leave equivalent processors;
* `Cpu.Reachable`           — the processors that a program of this library can come to;
* `Cpu.Inspection`          — storing these numbers, taking a snapshot, and going on from a snapshot;
* `step_equivalent`         — steps of equivalent processors, and runs with inspections in between.
-/

namespace Cpu

/-- All registers are the same, vector registers by their contents. -/
structure Equivalent (s t : Cpu) : Prop extends s.Agrees t where
  words : ∀ i, (s.vec i).words = (t.vec i).words

section
variable {s t u : Cpu}

theorem equivalent_refl (s : Cpu) : s.Equivalent s :=
  ⟨⟨rfl, rfl, rfl, rfl, rfl⟩, fun _ => rfl⟩

theorem Equivalent.symm (h : s.Equivalent t) : t.Equivalent s :=
  ⟨⟨h.gprs.symm, h.rip.symm, h.flags.symm, h.fsBase.symm, h.gsBase.symm⟩, fun i => (h.words i).symm⟩

theorem Equivalent.trans (h : s.Equivalent t) (h' : t.Equivalent u) : s.Equivalent u :=
  ⟨⟨h.gprs.trans h'.gprs, h.rip.trans h'.rip, h.flags.trans h'.flags, h.fsBase.trans h'.fsBase,
    h.gsBase.trans h'.gsBase⟩, fun i => (h.words i).trans (h'.words i)⟩

/-- The words of a register determine its bits. -/
theorem Equivalent.contents (h : s.Equivalent t) (i : Fin 16) :
    (s.vec i).contents = (t.vec i).contents := by
  have hwords : (s.vec i).words.toBits = (t.vec i).words.toBits := by rw [h.words i]
  rwa [VectorReg.words, VectorReg.words, Words.toBits_ofBits, Words.toBits_ofBits] at hwords

/-- **Snapshots.** Processors are equivalent if and only if their snapshots are the same. -/
theorem equivalent_iff : s.Equivalent t ↔ s.snapshot = t.snapshot := by
  constructor
  · intro h
    have hvectors : s.vectors.map VectorReg.words = t.vectors.map VectorReg.words := by
      apply Vector.ext
      intro i hi
      simpa [vec] using h.words ⟨i, hi⟩
    have hlist : s.vectors.toList.map VectorReg.words = t.vectors.toList.map VectorReg.words := by
      rw [← Vector.toList_map, ← Vector.toList_map, hvectors]
    rw [snapshot, snapshot, h.rip, h.flags, h.gprs, h.fsBase, h.gsBase, hlist]
  · intro h
    obtain ⟨hrip, hflags, hgprs, hfs, hgs, hvectors⟩ := Snapshot.mk.inj h
    have hset : s.flags = t.flags := by
      rw [← Flags.ofBits_bits s.flags, hflags, Flags.ofBits_bits]
    refine ⟨⟨hgprs, hrip, hset, hfs, hgs⟩, fun i => ?_⟩
    -- register `i` is item `i` of the snapshot's list
    have hitem := congrArg (·[i.val]?) hvectors
    simpa [vec] using hitem

end

/-! ### What instructions do to registers -/

/-- Vector registers with the same contents take the place of vector registers. -/
theorem Equivalent.setVec {s t : Cpu} (h : s.Equivalent t) (i : Fin 16) {r r' : VectorReg}
    (hr : r.contents = r'.contents) : (s.setVec i r).Equivalent (t.setVec i r') := by
  refine ⟨⟨h.gprs, h.rip, h.flags, h.fsBase, h.gsBase⟩, fun j => ?_⟩
  by_cases hj : i = j
  · subst hj
    rw [vec_setVec_self, vec_setVec_self, VectorReg.words, VectorReg.words, hr]
  · rw [vec_setVec_of_ne s r hj, vec_setVec_of_ne t r' hj]
    exact h.words j

/-- A change that acts on contents. -/
theorem keeps_modifyVec (i : Fin 16) {f : VectorReg → VectorReg} (g : BitVec 512 → BitVec 512)
    (hf : ∀ r, (f r).contents = g r.contents) : Keeps Equivalent (·.modifyVec i f) := by
  intro s t h
  refine h.setVec i ?_
  rw [hf, hf, h.contents i]

/-- A view that shows contents and leaves them. -/
theorem shows_of_contents {α : Type} (i : Fin 16) {view : VectorReg → α × VectorReg}
    (g : BitVec 512 → α) (hval : ∀ r, (view r).1 = g r.contents)
    (hleft : ∀ r, (view r).2.contents = r.contents) : Shows Equivalent i view := by
  intro s t h
  constructor
  · rw [hval, hval, h.contents i]
  · refine h.setVec i ?_
    rw [hleft, hleft, h.contents i]

/-- **Contents are all that counts.** Instructions see of vector registers nothing but their contents, and
    what they make of them depends on the contents only. -/
theorem congruence_equivalent : Congruence Equivalent where
  agrees h := h.toAgrees
  setGpr g v s t h :=
    ⟨⟨congrArg (·.set g.index v) h.gprs, h.rip, h.flags, h.fsBase, h.gsBase⟩, h.words⟩
  setFlags f s t h := ⟨⟨h.gprs, h.rip, rfl, h.fsBase, h.gsBase⟩, h.words⟩
  setVec i r s t h := h.setVec i rfl
  setXmm i x := keeps_modifyVec i (fun v => v.extractLsb' 128 384 ++ x) fun r =>
    VectorReg.contents_setXmm r x
  setSingle i x := keeps_modifyVec i (VectorReg.withLow32 · x) fun r =>
    VectorReg.contents_setSingle r x
  setDouble i x := keeps_modifyVec i (VectorReg.withLow64 · x) fun r =>
    VectorReg.contents_setDouble r x
  zeroUpper s t h := by
    refine ⟨⟨h.gprs, h.rip, h.flags, h.fsBase, h.gsBase⟩, fun i => ?_⟩
    have hvec : ∀ u : Cpu, u.zeroUpper.vec i = (u.vec i).zeroUpper := fun u => by
      simp [vec, zeroUpper]
    rw [hvec, hvec, VectorReg.zeroUpper, VectorReg.zeroUpper, h.contents i]
  xmm i := shows_of_contents i (·.extractLsb' 0 128) (fun _ => rfl) fun _ => rfl
  ymm i := shows_of_contents i (·.extractLsb' 0 256) (fun _ => rfl) fun _ => rfl
  single i := shows_of_contents i (fun v => UInt32.ofBitVec (v.extractLsb' 0 32))
    VectorReg.single_fst VectorReg.contents_single
  double i := shows_of_contents i (fun v => UInt64.ofBitVec (v.extractLsb' 0 64))
    VectorReg.double_fst VectorReg.contents_double

/-- The instruction pointer is no vector register. -/
theorem keeps_setRip (a : UInt64) : Keeps Equivalent (·.setRip a) :=
  fun _ _ h => ⟨⟨h.gprs, rfl, h.flags, h.fsBase, h.gsBase⟩, h.words⟩

/-! ### Reachable processors -/

/-- The processors that one comes to from a new one by setting registers to any values, by going on from any
    snapshot and by steps on any bus, whether these succeed or fail. -/
inductive Reachable : Cpu → Prop where
  | initial : Reachable initial
  | setGpr {s : Cpu} (g : Gpr) (v : UInt64) : Reachable s → Reachable (s.setGpr g v)
  | setRip {s : Cpu} (rip : UInt64) : Reachable s → Reachable (s.setRip rip)
  | setFlags {s : Cpu} (f : Flags) : Reachable s → Reachable (s.setFlags f)
  | setBases {s : Cpu} (fs gs : UInt64) : Reachable s → Reachable { s with fsBase := fs, gsBase := gs }
  | setVectors {s : Cpu} (vectors : Vector VectorReg 16) :
    Reachable s → Reachable { s with vectors := vectors }
  | restore (snapshot : Snapshot) : Reachable (restore snapshot)
  | step {σ : Type} [Bus σ] (table : IntrinsicTable) {m : Machine σ} :
    Reachable m.cpu → Reachable (outcome (Exec.step table) m).2.cpu

/-- A step leaves bit 1 of the flag register set. -/
theorem reserved_step {σ : Type} [Bus σ] (table : IntrinsicTable) {m : Machine σ}
    (h : m.cpu.flags.reserved = true) :
    (outcome (Exec.step table) m).2.cpu.flags.reserved = true := by
  -- a machine runs like itself, and every change of the flags sets the bit
  have hcpu : Congruence fun s t => s = t ∧ s.flags.reserved = true :=
    congruence_eq_and (fun _ _ _ hs => hs) (fun _ _ _ => rfl) fun _ _ hs => hs
  have hrip : ∀ a, Keeps (fun s t => s = t ∧ s.flags.reserved = true) (·.setRip a) := by
    rintro a s _ ⟨rfl, hs⟩
    exact ⟨rfl, hs⟩
  obtain ⟨-, ⟨-, hleft⟩, -⟩ :=
    Exec.alike_step ⟨hcpu, Bus.congruence_eq σ⟩ hrip table m m ⟨⟨rfl, h⟩, rfl⟩
  exact hleft

/-- The reserved flag is always set. -/
theorem Reachable.reserved {s : Cpu} (h : s.Reachable) : s.flags.reserved = true := by
  induction h with
  | initial => rfl
  | setGpr g v _ ih => exact ih
  | setRip rip _ ih => exact ih
  | setFlags f _ _ => rfl
  | setBases fs gs _ ih => exact ih
  | setVectors vectors _ ih => exact ih
  | restore snapshot => rfl
  | step table _ ih => exact reserved_step table ih

/-! ### Inspections -/

/-- What may be done to registers between two steps without meaning to change them. -/
inductive Inspection where
  /-- Stores the numbers that are kept beside vector registers. -/
  | materialize
  /-- Takes a snapshot, for which these numbers are stored. -/
  | snapshot
  /-- Takes a snapshot and goes on from it. -/
  | restore
deriving DecidableEq, Inhabited

/-- The processor after an inspection. -/
def Inspection.after (s : Cpu) : Inspection → Cpu
  | materialize => s.materialize
  | snapshot => s.materialize
  | restore => Cpu.restore s.snapshot

variable {s : Cpu}

/-- To store what is kept beside a register does not change its contents. -/
theorem equivalent_materialize (s : Cpu) : s.materialize.Equivalent s := by
  refine ⟨⟨rfl, rfl, rfl, rfl, rfl⟩, fun i => ?_⟩
  have hvec : s.materialize.vec i = (s.vec i).materialize := by simp [vec, materialize]
  rw [hvec, VectorReg.words, VectorReg.contents_materialize, VectorReg.words]

/-- A snapshot keeps the flags if the reserved one is set. -/
theorem flags_restore_snapshot (h : s.flags.reserved = true) :
    (Cpu.restore s.snapshot).flags = s.flags := by
  show (Flags.ofBits s.flags.bits).withReserved = s.flags
  rw [Flags.ofBits_bits, Flags.withReserved, ← h]

/-- The processor of a snapshot is equivalent to the one that it was taken of. -/
theorem equivalent_restore (h : s.flags.reserved = true) :
    (Cpu.restore s.snapshot).Equivalent s := by
  refine ⟨⟨rfl, rfl, flags_restore_snapshot h, rfl, rfl⟩, fun i => ?_⟩
  have hvec : (Cpu.restore s.snapshot).vec i = .ofWords (s.vec i).words := by
    simp [vec, Cpu.restore, Cpu.snapshot]
  rw [hvec, VectorReg.words, VectorReg.contents_ofWords_words, VectorReg.words]

/-- An inspection leaves equivalent registers. -/
theorem Inspection.equivalent_after (h : s.flags.reserved = true) (look : Inspection) :
    (look.after s).Equivalent s := by
  cases look with
  | materialize => exact equivalent_materialize s
  | snapshot => exact equivalent_materialize s
  | restore => exact equivalent_restore h

/-- So do several inspections one after the other. -/
theorem equivalent_inspections (h : s.flags.reserved = true) (looks : List Inspection) :
    (looks.foldl Inspection.after s).Equivalent s := by
  induction looks generalizing s with
  | nil => exact equivalent_refl s
  | cons look looks ih =>
    have hlook := look.equivalent_after h
    have hreserved : (look.after s).flags.reserved = true := by rw [hlook.flags, h]
    exact (ih hreserved).trans hlook

end Cpu

/-! ### Runs -/

/-- Inspects the registers of a machine. -/
def Machine.inspect {σ : Type} (looks : List Cpu.Inspection) : StateM (Machine σ) PUnit :=
  modify fun m => ⟨looks.foldl Cpu.Inspection.after m.cpu, m.bus⟩

/-- As many further steps as there are lists, at most, with the inspections of a list before each. -/
def runInspected {σ : Type} [Bus σ] (table : IntrinsicTable) (executed : Nat) :
    List (List Cpu.Inspection) → StateM (Machine σ) BatchResult
  | [] => return ⟨executed, .completed⟩
  | looks :: rest => do
    Machine.inspect looks
    match ← (Exec.step table).run with
    | .ok .proceed => runInspected table (executed + 1) rest
    | .ok .halted => return ⟨executed + 1, .halted⟩
    | .ok .syscall => return ⟨executed + 1, .syscall⟩
    | .error fault => return ⟨executed, .fault fault⟩

section
variable {σ : Type} [Bus σ] (table : IntrinsicTable)

/-- Machines with equivalent processors on the same bus. -/
theorem congruence_equivalent (σ : Type) [Bus σ] :
    Machine.Congruence Cpu.Equivalent fun b c : σ => b = c :=
  ⟨Cpu.congruence_equivalent, Bus.congruence_eq σ⟩

/-- Inspections before a step, the step, and the rest. -/
theorem runInspected_cons (executed : Nat) (looks : List Cpu.Inspection)
    (rest : List (List Cpu.Inspection)) (m : Machine σ) :
    (runInspected table executed (looks :: rest)).run m =
      match outcome (Exec.step table) ⟨looks.foldl Cpu.Inspection.after m.cpu, m.bus⟩ with
      | (.ok .proceed, m') => (runInspected table (executed + 1) rest).run m'
      | (.ok exit, m') => (⟨executed + 1, exit.batchExit⟩, m')
      | (.error f, m') => (⟨executed, .fault f⟩, m') := by
  rw [runInspected, Machine.inspect, run_modify_bind, run_bind_run]
  generalize outcome (Exec.step table) ⟨looks.foldl Cpu.Inspection.after m.cpu, m.bus⟩ = p
  obtain ⟨f | exit, m'⟩ := p
  · rfl
  · cases exit <;> rfl

/-- Inspections change neither how a run ends nor what it leaves. -/
theorem runInspected_related (executed : Nat) (looks : List (List Cpu.Inspection))
    {m m' : Machine σ} (h : Machine.Related Cpu.Equivalent (· = ·) m m')
    (hreserved : m.cpu.flags.reserved = true) :
    ((runInspected table executed looks).run m).1 =
        ((runFrom table executed looks.length).run m').1 ∧
      Machine.Related Cpu.Equivalent (· = ·) ((runInspected table executed looks).run m).2
        ((runFrom table executed looks.length).run m').2 := by
  -- induction on the steps; bit 1 of the flags stays set, so a snapshot tells all
  induction looks generalizing executed m m' with
  | nil => exact ⟨rfl, h⟩
  | cons look rest ih =>
    have hlook := Cpu.equivalent_inspections hreserved look
    have hbefore : Machine.Related Cpu.Equivalent (· = ·)
        ⟨look.foldl Cpu.Inspection.after m.cpu, m.bus⟩ m' := ⟨hlook.trans h.1, h.2⟩
    have hset : (look.foldl Cpu.Inspection.after m.cpu).flags.reserved = true := by
      rw [hlook.flags, hreserved]
    have hkept := Cpu.reserved_step table
      (m := ⟨look.foldl Cpu.Inspection.after m.cpu, m.bus⟩) hset
    rw [runInspected_cons, List.length_cons, runFrom_succ]
    obtain ⟨f, n, n', hn, hn', hrel⟩ | ⟨exit, n, n', hn, hn', hrel⟩ :=
      (Exec.alike_step (congruence_equivalent σ) Cpu.keeps_setRip table).outcomes hbefore
    · rw [hn, hn']
      exact ⟨rfl, hrel⟩
    · rw [hn] at hkept
      rw [hn, hn']
      cases exit with
      | proceed => exact ih (executed + 1) hrel hkept
      | halted => exact ⟨rfl, hrel⟩
      | syscall => exact ⟨rfl, hrel⟩

/-- A block of instructions ends alike on related machines, makes the same bindings and leaves related
    machines. -/
theorem BasicBlock.runFrom_related {τ : Type} [Bus τ] {E : Cpu → Cpu → Prop} {S : σ → τ → Prop}
    (h : Machine.Congruence E S) (hrip : ∀ a, Cpu.Keeps E (·.setRip a)) (executed : Nat)
    (ps : List PreparedInstruction) {m : Machine σ} {m' : Machine τ} (hm : Machine.Related E S m m') :
    ((runFrom executed ps).run m).1 = ((runFrom executed ps).run m').1 ∧
      Machine.Related E S ((runFrom executed ps).run m).2 ((runFrom executed ps).run m').2 := by
  induction ps generalizing executed m m' with
  | nil => exact ⟨rfl, hm⟩
  | cons p ps ih =>
    rw [run_runFrom_cons, run_runFrom_cons]
    obtain ⟨f, n, n', hn, hn', hrel⟩ | ⟨exit, n, n', hn, hn', hrel⟩ :=
      (Exec.alike_retire h hrip p.instruction p.binding).outcomes hm
    · rw [hn, hn']
      exact ⟨rfl, hrel⟩
    · rw [hn, hn']
      cases exit with
      | proceed =>
        obtain ⟨hval, hleft⟩ := ih (executed + 1) hrel
        refine ⟨?_, hleft⟩
        simp only [resultFrom, boundFrom, hval]
      | halted => exact ⟨rfl, hrel⟩
      | syscall => exact ⟨rfl, hrel⟩

/-- **Numbers beside vector registers are invisible.** On equivalent processors and the same bus a step, or
    a block, ends in the same way, makes the same of the bus and leaves equivalent processors.  So whatever
    is stored or snapshot before the steps of a run, and whatever snapshots the run goes on from, it ends in
    the same way with the same bus and an equivalent processor; and what is restored from a snapshot has
    that snapshot. -/
theorem step_equivalent :
    (∀ {σ : Type} [Bus σ] (table : IntrinsicTable) (s t : Cpu) (b : σ), s.Equivalent t →
      (outcome (Exec.step table) ⟨s, b⟩).1 = (outcome (Exec.step table) ⟨t, b⟩).1 ∧
        (outcome (Exec.step table) ⟨s, b⟩).2.bus = (outcome (Exec.step table) ⟨t, b⟩).2.bus ∧
        (outcome (Exec.step table) ⟨s, b⟩).2.cpu.Equivalent
          (outcome (Exec.step table) ⟨t, b⟩).2.cpu) ∧
    (∀ {σ : Type} [Bus σ] (block : BasicBlock) (s t : Cpu) (b : σ), s.Equivalent t →
      (block.run.run ⟨s, b⟩).1 = (block.run.run ⟨t, b⟩).1 ∧
        (block.run.run ⟨s, b⟩).2.bus = (block.run.run ⟨t, b⟩).2.bus ∧
        (block.run.run ⟨s, b⟩).2.cpu.Equivalent (block.run.run ⟨t, b⟩).2.cpu) ∧
    (∀ {σ : Type} [Bus σ] (table : IntrinsicTable) (looks : List (List Cpu.Inspection))
        (m : Machine σ), m.cpu.Reachable →
      ((runInspected table 0 looks).run m).1 = ((runBatch table looks.length).run m).1 ∧
        ((runInspected table 0 looks).run m).2.bus =
          ((runBatch table looks.length).run m).2.bus ∧
        ((runInspected table 0 looks).run m).2.cpu.Equivalent
          ((runBatch table looks.length).run m).2.cpu) ∧
    ∀ s : Cpu, s.Reachable → (Cpu.restore s.snapshot).snapshot = s.snapshot := by
  -- the buses are the same, so the machines are related as soon as their registers are
  have hsame : ∀ {σ : Type} (s t : Cpu) (b : σ), s.Equivalent t →
      Machine.Related Cpu.Equivalent (· = ·) ⟨s, b⟩ ⟨t, b⟩ := fun s t b h => ⟨h, rfl⟩
  refine ⟨fun table s t b h => ?_, fun block s t b h => ?_, fun table looks m h => ?_, fun s h => ?_⟩
  · obtain ⟨hval, hcpu, hbus⟩ := Exec.alike_step (congruence_equivalent _) Cpu.keeps_setRip table
      ⟨s, b⟩ ⟨t, b⟩ (hsame s t b h)
    exact ⟨hval, hbus, hcpu⟩
  -- a block keeps its bindings beside the result, and these are the same, too
  · obtain ⟨hval, hcpu, hbus⟩ := BasicBlock.runFrom_related (congruence_equivalent _)
      Cpu.keeps_setRip 0 block.instructions (hsame s t b h)
    refine ⟨?_, hbus, hcpu⟩
    exact congrArg (fun r => (r.1, { block with instructions := r.2 })) hval
  · have hm := hsame m.cpu m.cpu m.bus (Cpu.equivalent_refl m.cpu)
    obtain ⟨hval, hcpu, hbus⟩ := runInspected_related table 0 looks hm h.reserved
    exact ⟨hval, hbus, hcpu⟩
  · exact Cpu.equivalent_iff.mp (Cpu.equivalent_restore h.reserved)

/-- A processor that keeps the number 1.5 beside a vector register full of ones. -/
def staleOnes : Cpu :=
  (Cpu.initial.setRip 0x1000).setVec ⟨1, by decide⟩ ⟨BitVec.allOnes 512, some (.single 0x3fc00000)⟩

/-- Code that moves the low word of this vector register to `rax`, and then halts. -/
def movingWord : Memory :=
  (Memory.empty {}).afterCalls
    [.map ⟨0x1000, 0x1006, .readExecute, 0, "code"⟩ (packed [0x66, 0x48, 0x0f, 0x7e, 0xc8, 0xf4])]

/-- The number is seen whether it was stored before or not, and whatever is inspected on the way. -/
theorem step_equivalent_staleOnes :
    staleOnes ≠ staleOnes.materialize ∧
      (outcome (Exec.step ⟨[]⟩) ⟨staleOnes, movingWord⟩).1 = .ok .proceed ∧
      (outcome (Exec.step ⟨[]⟩) ⟨staleOnes, movingWord⟩).2.cpu.gpr .rax = 0xffffffff3fc00000 ∧
      ((runInspected ⟨[]⟩ 0 [[.restore], [.snapshot, .materialize], []]).run
        ⟨staleOnes, movingWord⟩).1 = ⟨2, .halted⟩ ∧
      (Cpu.restore staleOnes.snapshot).snapshot = staleOnes.snapshot := by
  have hreach : staleOnes.Reachable := .setVectors _ (.setRip 0x1000 .initial)
  have hequiv : staleOnes.materialize.Equivalent staleOnes := Cpu.equivalent_materialize staleOnes
  obtain ⟨hstep, -, hrun, hrestore⟩ := step_equivalent
  obtain ⟨hval, -, hcpu⟩ := hstep ⟨[]⟩ staleOnes staleOnes.materialize movingWord hequiv.symm
  have hstored : (outcome (Exec.step ⟨[]⟩) ⟨staleOnes.materialize, movingWord⟩).1 =
        .ok .proceed ∧
      (outcome (Exec.step ⟨[]⟩) ⟨staleOnes.materialize, movingWord⟩).2.cpu.gpr .rax =
        0xffffffff3fc00000 := by decide +kernel
  have hbatch : ((runBatch ⟨[]⟩ 3).run ⟨staleOnes, movingWord⟩).1 = ⟨2, .halted⟩ := by
    decide +kernel
  obtain ⟨hends, -, -⟩ := hrun ⟨[]⟩ [[.restore], [.snapshot, .materialize], []]
    ⟨staleOnes, movingWord⟩ hreach
  refine ⟨by decide +kernel, hval.trans hstored.1, ?_, hends.trans hbatch, hrestore _ hreach⟩
  rw [hcpu.gpr]
  exact hstored.2

end

end Amd64
