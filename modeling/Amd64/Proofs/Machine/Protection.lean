import Amd64.Proofs.Machine.Fetch
import Amd64.Proofs.Simulation.Run

namespace Amd64

/-!
# Protection of memory

Whatever instructions are executed, permissions hold.

* `Memory.busCongruence`  — what reads and fetches see nothing of and writes keep, all accesses keep;
* `Memory.Protects`       — the segments and the bytes that may not be written are those of another memory;
* `Memory.DiffersHidden`  — two memories differ in bytes only that may be neither read nor executed;
* `runBatch_protects`     — a batch executes code only, and protected bytes stay;
* `runBatch_hidden`       — bytes that may be neither read nor executed do not influence a batch.
-/

namespace Memory

variable {m m' : Memory}

/-- Numbers are read and written as runs of bytes, so runs of bytes and code are all there is to check. -/
theorem busCongruence {S : Memory → Memory → Prop}
    (hread : ∀ m m', S m m' → ∀ a n, m.readBytes a n = m'.readBytes a n)
    (hfetch : ∀ m m', S m m' → ∀ a n, m.fetch a n = m'.fetch a n)
    (hwrite : ∀ a data, Alike S (writeBytes a data) (writeBytes a data)) : Bus.Congruence S := by
  have hask : ∀ {α : Type} {f : Memory → Except MemoryError α},
      (∀ m m', S m m' → f m = f m') → Alike S (ask f) (ask f) :=
    fun hf m m' h => ⟨hf m m' h, h⟩
  refine ⟨fun w a => hask fun m m' h => ?_, fun a => hask fun m m' h => ?_, fun w a v => hwrite a _,
    fun a v => hwrite a _, fun a n => hask fun m m' h => hfetch m m' h a n,
    fun a n => hask fun m m' h => hread m m' h a n, hwrite⟩
  · rw [readWord, readWord, hread m m' h]
  · rw [readXmm, readXmm, hread m m' h]

/-! ### Segments decide permissions -/

/-- Permissions are those of the segment that has the address. -/
theorem permissions?_eq (h : m.table.WellFormed) (x : Nat) :
    m.permissions? x = m.segments.findSome? fun s =>
      if s.start.toNat ≤ x ∧ x < s.stop.toNat then some s.permissions else none := by
  obtain ⟨window, t⟩ := m
  show (t.view? x).map Prod.snd = (t.map Mapping.segment).findSome? _
  induction t with
  | nil => rfl
  | cons y t ih =>
    obtain ⟨hy, -, ht⟩ := Table.wellFormed_cons.mp h
    rw [Table.view?_cons, List.map_cons, List.findSome?_cons, ← ih ht]
    by_cases hx : y.start ≤ x ∧ x < y.stop
    · obtain ⟨b, hb⟩ := hy.cell?_eq_some hx
      have hin : y.segment.start.toNat ≤ x ∧ x < y.segment.stop.toNat := hx
      rw [hb, if_pos hin]
      rfl
    · have hout : ¬ (y.segment.start.toNat ≤ x ∧ x < y.segment.stop.toNat) := hx
      rw [Mapping.cell?_eq_none (by omega), if_neg hout, Option.none_or]

/-- The same segments give the same permissions. -/
theorem permissions?_of_segments (h : m.table.WellFormed) (h' : m'.table.WellFormed)
    (hseg : m'.segments = m.segments) : m'.permissions? = m.permissions? := by
  funext x
  rw [permissions?_eq h, permissions?_eq h', hseg]

/-! ### Protected bytes -/

/-- `m'` has the segments of `m`, and the same bytes where these may not be written. -/
structure Protects (m m' : Memory) : Prop where
  wellFormed : m'.table.WellFormed
  segments : m'.segments = m.segments
  unwritable : ∀ x c, m.view? x = some c → c.2.write = false → m'.view? x = some c

theorem protects_self (h : m.table.WellFormed) : m.Protects m :=
  ⟨h, rfl, fun _ _ hc _ => hc⟩

/-- A write touches only what may be written. -/
theorem Protects.writeBytes (h : m.Protects m') (a : UInt64) (data : ByteArray) :
    m.Protects (outcome (Memory.writeBytes a data) m').2 := by
  have hspec := writesCells_store h.wellFormed true a data
  refine ⟨wellFormed_store h.wellFormed true a data, hspec.segments.1.trans h.segments, ?_⟩
  intro x c hc hwrite
  have hx := h.unwritable x c hc hwrite
  cases hresult : (outcome (store true a data) m').1 with
  | error e => exact (congrFun (congrArg view? (hspec.unchanged e hresult)) x).trans hx
  | ok u =>
    refine (hspec.outside hresult x (by_contra fun hin => ?_)).trans hx
    -- inside of the range everything may be written
    obtain ⟨d, hd, hallows⟩ := hspec.isOk_iff.mp hresult x (by omega) (by omega)
    obtain rfl : c = d := Option.some.inj (hx.symm.trans hd)
    have htrue : c.2.write = true := hallows
    rw [hwrite] at htrue
    exact nomatch htrue

/-- Every access keeps protected bytes. -/
theorem busCongruence_protects (m : Memory) :
    Bus.Congruence fun b c => b = c ∧ m.Protects b := by
  refine busCongruence ?_ ?_ ?_
  · rintro b _ ⟨rfl, -⟩ a n
    rfl
  · rintro b _ ⟨rfl, -⟩ a n
    rfl
  · rintro a data b _ ⟨rfl, hb⟩
    exact ⟨rfl, rfl, hb.writeBytes a data⟩

/-! ### Hidden bytes -/

/-- The segments are the same, and bytes outside of `D` are, where `D` may be neither read nor executed. -/
structure DiffersHidden (D : Nat → Prop) (m m' : Memory) : Prop where
  left : m.table.WellFormed
  right : m'.table.WellFormed
  segments : m'.segments = m.segments
  agree : ∀ x, ¬ D x → m'.view? x = m.view? x
  hidden : ∀ x, D x → ¬ m.Permits (·.read) x ∧ ¬ m.Permits (·.execute) x

namespace DiffersHidden

variable {D : Nat → Prop} (h : DiffersHidden D m m')

include h

/-- All permissions stay. -/
theorem permissions? : m'.permissions? = m.permissions? :=
  permissions?_of_segments h.left h.right h.segments

/-- Bytes that cannot be written are read as before. -/
theorem readBytes (a : UInt64) (n : Nat) : m'.readBytes a n = m.readBytes a n :=
  load_congr_of_permits h.left h.right h.permissions? true
    (fun x hx => h.agree x fun hD => (h.hidden x hD).1 hx) a n

/-- Bytes that cannot be written are fetched as before. -/
theorem fetch (a : UInt64) (n : Nat) : m'.fetch a n = m.fetch a n :=
  fetch_congr h.left h.right h.permissions?
    (fun x hx => h.agree x fun hD => (h.hidden x hD).2 hx) a n

/-- A write replaces the same bytes in both, whether they may be read or not. -/
theorem writeBytes (a : UInt64) (data : ByteArray) :
    (outcome (writeBytes a data) m').1 = (outcome (Memory.writeBytes a data) m).1 ∧
      DiffersHidden D (outcome (Memory.writeBytes a data) m).2
        (outcome (Memory.writeBytes a data) m').2 := by
  obtain ⟨hval, hview⟩ := store_congr_of_permissions h.left h.right h.permissions? true a data
  have hseg := (writesCells_store h.left true a data).segments.1
  have hseg' := (writesCells_store h.right true a data).segments.1
  have hwf := wellFormed_store h.left true a data
  refine ⟨hval, hwf, wellFormed_store h.right true a data, hseg'.trans (h.segments.trans hseg.symm),
    fun x hx => hview x (h.agree x hx), fun x hx => ?_⟩
  -- permissions are those of the segments, which a write keeps
  have hpermits : ∀ ok, (outcome (store true a data) m).2.Permits ok x ↔ m.Permits ok x := by
    intro ok
    rw [permits_iff, permits_iff, permissions?_of_segments h.left hwf hseg]
  obtain ⟨hread, hexecute⟩ := h.hidden x hx
  exact ⟨fun hp => hread ((hpermits _).mp hp), fun hp => hexecute ((hpermits _).mp hp)⟩

end DiffersHidden

/-- No access sees hidden differences. -/
theorem busCongruence_hidden (D : Nat → Prop) : Bus.Congruence (DiffersHidden D) :=
  busCongruence (fun _ _ h a n => (h.readBytes a n).symm) (fun _ _ h a n => (h.fetch a n).symm)
    fun a data _ _ h => ⟨(h.writeBytes a data).1.symm, (h.writeBytes a data).2⟩

end Memory

/-! ### Runs -/

section
variable (table : IntrinsicTable) (n : Nat)

/-- Machines that are the same and keep the protected bytes of `b`. -/
theorem congruence_protects (b : Memory) :
    Machine.Congruence (· = ·) fun c d => c = d ∧ b.Protects c :=
  ⟨Cpu.congruence_eq, b.busCongruence_protects⟩

/-- An instruction keeps the segments and the bytes that may not be written. -/
theorem protects_retire {b : Memory} {m : Machine Memory} (h : b.Protects m.bus) (i : Instruction)
    (operands : Binding) : b.Protects (outcome (Exec.retire i operands) m).2.bus := by
  obtain ⟨-, -, -, hleft⟩ := Exec.alike_retire (congruence_protects b)
    (fun a _ _ hst => congrArg (·.setRip a) hst) i operands m m ⟨rfl, rfl, h⟩
  exact hleft

/-- So does a run. -/
theorem protects_runBatch {m : Machine Memory} (h : m.bus.table.WellFormed) :
    m.bus.Protects ((runBatch table n).run m).2.bus := by
  have hrel : Machine.Related (· = ·) (fun b c => b = c ∧ m.bus.Protects b) m m :=
    ⟨rfl, rfl, Memory.protects_self h⟩
  obtain ⟨-, -, -, hfinal⟩ := runBatch_related (congruence_protects m.bus)
    (fun a _ _ hst => congrArg (·.setRip a) hst) table n hrel
  exact hfinal

/-- **Page protection.** Whatever a batch of steps executes, the table of segments is the same afterwards
    and so is every byte that may not be written; and each instruction that it executed, when it was
    fetched, consisted of bytes that may be executed. -/
theorem runBatch_protects {m : Machine Memory} (h : m.bus.Reachable) :
    ((runBatch table n).run m).2.bus.segments = m.bus.segments ∧
      (∀ x c, m.bus.view? x = some c → c.2.write = false →
        ((runBatch table n).run m).2.bus.view? x = some c) ∧
      ∀ k < ((runBatch table n).run m).1.executed, ∃ m' i exit,
        (runBatch table k).run m = (⟨k, .completed⟩, m') ∧
          outcome (Exec.fetchInstruction table m'.cpu.rip) m' = (.ok i, m') ∧
          (outcome (Exec.retire i i.binding) m').1 = .ok exit ∧
          (table.get? m'.cpu.rip = none → ∀ x, m'.cpu.rip.toNat ≤ x →
            x < m'.cpu.rip.toNat + i.size → m'.bus.Permits (·.execute) x) := by
  have hfinal := protects_runBatch table n h.wellFormed
  refine ⟨hfinal.segments, hfinal.unwritable, fun k hk => ?_⟩
  obtain ⟨m', exit, hrun, hstep⟩ := step_of_lt_executed table hk
  -- the machine at this step is the one that a shorter batch leaves
  have hwf : m'.bus.table.WellFormed := by
    have hprotects := protects_runBatch table k h.wellFormed
    rw [hrun] at hprotects
    exact hprotects.wellFormed
  rw [Exec.outcome_step] at hstep
  cases hfetch : m'.bus.instructionAt table m'.cpu.rip with
  | error f =>
    rw [hfetch] at hstep
    exact nomatch hstep
  | ok i =>
    rw [hfetch] at hstep
    refine ⟨m', i, exit, hrun, ?_, hstep, fun _ x hlow hx => ?_⟩
    · rw [Exec.outcome_fetchInstruction, hfetch]
    · exact Memory.permits_instructionAt hwf hfetch hlow hx

/-- Code that writes to itself with its second instruction, a move to the byte at `rax`. -/
def selfWriting : Machine Memory where
  cpu := (Cpu.initial.setRip 0x1000).setGpr .rax 0x1001
  bus := (Memory.empty {}).afterCalls
    [.map ⟨0x1000, 0x1004, .readExecute, 0, "code"⟩ (packed [0x90, 0xc6, 0x00, 0x07])]

/-- The first instruction is executed; the second fails and leaves its own bytes as they are. -/
theorem runBatch_protects_selfWriting :
    selfWriting.bus.Reachable ∧
      ((runBatch ⟨[]⟩ 2).run selfWriting).1 = ⟨1, .fault (.memory (.denied 0x1001 1 .write))⟩ ∧
      ((runBatch ⟨[]⟩ 2).run selfWriting).2.bus.view? 0x1001 = some (0xc6, .readExecute) ∧
      ∃ m', (runBatch ⟨[]⟩ 0).run selfWriting = (⟨0, .completed⟩, m') := by
  have h : selfWriting.bus.Reachable := ⟨_, _, rfl⟩
  obtain ⟨-, hkept, hexecuted⟩ := runBatch_protects ⟨[]⟩ 2 h
  have hrun : ((runBatch ⟨[]⟩ 2).run selfWriting).1 =
      ⟨1, .fault (.memory (.denied 0x1001 1 .write))⟩ := by decide +kernel
  have hbyte : selfWriting.bus.view? 0x1001 = some (0xc6, .readExecute) := by decide +kernel
  obtain ⟨m', _, _, hfirst, _⟩ := hexecuted 0 (by rw [hrun]; decide)
  exact ⟨h, hrun, hkept 0x1001 _ hbyte rfl, m', hfirst⟩

/-- **Hidden bytes.** Of two address spaces with the same segments whose bytes differ only where they may be
    neither read nor executed, a batch of steps from the same registers makes the same: it ends in the
    same way with the same registers, and bytes that were the same are the same afterwards. -/
theorem runBatch_hidden (s : Cpu) {b b' : Memory} (h : b.Reachable) (h' : b'.Reachable)
    (hseg : b'.segments = b.segments)
    (hhidden : ∀ x c, b.view? x = some c → b'.view? x ≠ some c →
      c.2.read = false ∧ c.2.execute = false) :
    ((runBatch table n).run ⟨s, b'⟩).1 = ((runBatch table n).run ⟨s, b⟩).1 ∧
      ((runBatch table n).run ⟨s, b'⟩).2.cpu = ((runBatch table n).run ⟨s, b⟩).2.cpu ∧
      ((runBatch table n).run ⟨s, b'⟩).2.bus.segments =
        ((runBatch table n).run ⟨s, b⟩).2.bus.segments ∧
      ∀ x, ((runBatch table n).run ⟨s, b'⟩).2.bus.view? x ≠
        ((runBatch table n).run ⟨s, b⟩).2.bus.view? x → b'.view? x ≠ b.view? x := by
  have hstart : b.DiffersHidden (fun x => b'.view? x ≠ b.view? x) b' := by
    refine ⟨h.wellFormed, h'.wellFormed, hseg, fun x hx => not_not.mp hx, fun x hx => ?_⟩
    -- a cell of `b` that differs is one whose permissions forbid both
    have hforbids : ∀ c, b.view? x = some c → c.2.read = false ∧ c.2.execute = false :=
      fun c hc => hhidden x c hc (hc ▸ hx)
    constructor
    · rintro ⟨c, hc, hread⟩
      exact absurd hread (by simp [(hforbids c hc).1])
    · rintro ⟨c, hc, hexecute⟩
      exact absurd hexecute (by simp [(hforbids c hc).2])
  have hcongr : Machine.Congruence (· = ·) (Memory.DiffersHidden fun x => b'.view? x ≠ b.view? x) :=
    ⟨Cpu.congruence_eq, Memory.busCongruence_hidden _⟩
  have hrel : Machine.Related (· = ·) (Memory.DiffersHidden fun x => b'.view? x ≠ b.view? x)
      ⟨s, b⟩ ⟨s, b'⟩ := ⟨rfl, hstart⟩
  obtain ⟨hval, hcpu, hbus⟩ :=
    runBatch_related hcongr (fun a _ _ hst => congrArg (·.setRip a) hst) table n hrel
  exact ⟨hval.symm, hcpu.symm, hbus.segments,
    fun x hx => by_contra fun hsame => hx (hbus.agree x hsame)⟩

/-- A processor at the start of code, with the address of data in `rax`. -/
def atCode : Cpu := (Cpu.initial.setRip 0x1000).setGpr .rax 0x2000

/-- Code that writes a byte at `rax` and then reads it, and two bytes that may only be written. -/
def writeOnly : Memory :=
  (Memory.empty {}).afterCalls
    [.map ⟨0x1000, 0x1004, .readExecute, 0, "code"⟩ (packed [0x88, 0x00, 0x8a, 0x00]),
      .map ⟨0x2000, 0x2002, ⟨false, true, false⟩, 0, "log"⟩ (packed [1, 2])]

/-- The same with other bytes that may only be written. -/
def writeOnlyOther : Memory :=
  writeOnly.afterCalls [.poke 0x2000 (packed [3, 4])]

/-- The write makes the first of these bytes the same, the read fails with either memory, and the second
    byte still differs. -/
theorem runBatch_hidden_writeOnly :
    ((runBatch ⟨[]⟩ 2).run ⟨atCode, writeOnly⟩).1 =
        ⟨1, .fault (.memory (.denied 0x2000 1 .read))⟩ ∧
      ((runBatch ⟨[]⟩ 2).run ⟨atCode, writeOnlyOther⟩).1 =
        ⟨1, .fault (.memory (.denied 0x2000 1 .read))⟩ ∧
      ((runBatch ⟨[]⟩ 2).run ⟨atCode, writeOnlyOther⟩).2.bus.view? 0x2001 ≠
        ((runBatch ⟨[]⟩ 2).run ⟨atCode, writeOnly⟩).2.bus.view? 0x2001 ∧
      ∀ x, x < 0x2000 ∨ 0x2002 ≤ x →
        ((runBatch ⟨[]⟩ 2).run ⟨atCode, writeOnlyOther⟩).2.bus.view? x =
          ((runBatch ⟨[]⟩ 2).run ⟨atCode, writeOnly⟩).2.bus.view? x := by
  have h : writeOnly.Reachable := ⟨_, _, rfl⟩
  have h' : writeOnlyOther.Reachable := h.afterCalls _
  have hseg : writeOnlyOther.segments = writeOnly.segments := by decide +kernel
  -- the other memory has other bytes at the two addresses that cannot be read
  have hpoke := Memory.writesCells_store h.wellFormed false 0x2000 (packed [3, 4])
  have hdone : (outcome (Memory.store false 0x2000 (packed [3, 4])) writeOnly).1 = .ok () := by
    decide +kernel
  have hsame : ∀ x, x < 0x2000 ∨ 0x2002 ≤ x → writeOnlyOther.view? x = writeOnly.view? x :=
    hpoke.outside hdone
  have hlog : writeOnly.view? 0x2000 = some (1, ⟨false, true, false⟩) ∧
      writeOnly.view? 0x2001 = some (2, ⟨false, true, false⟩) := by decide +kernel
  -- these two are the only ones that differ, and their permissions hide them
  have hhidden : ∀ x c, writeOnly.view? x = some c → writeOnlyOther.view? x ≠ some c →
      c.2.read = false ∧ c.2.execute = false := by
    intro x c hc hne
    have hx : x = 0x2000 ∨ x = 0x2001 := by
      by_contra hout
      exact hne ((hsame x (by omega)).trans hc)
    rcases hx with rfl | rfl
    · obtain rfl := Option.some.inj (hc.symm.trans hlog.1)
      exact ⟨rfl, rfl⟩
    · obtain rfl := Option.some.inj (hc.symm.trans hlog.2)
      exact ⟨rfl, rfl⟩
  obtain ⟨hval, -, -, hfinal⟩ := runBatch_hidden ⟨[]⟩ 2 atCode h h' hseg hhidden
  have hrun : ((runBatch ⟨[]⟩ 2).run ⟨atCode, writeOnly⟩).1 =
      ⟨1, .fault (.memory (.denied 0x2000 1 .read))⟩ := by decide +kernel
  refine ⟨hrun, hval.trans hrun, by decide +kernel, fun x hx => ?_⟩
  exact by_contra fun hne => hfinal x hne (hsame x hx)

end

end Amd64
