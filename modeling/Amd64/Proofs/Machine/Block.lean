import Amd64.Machine.Block
import Amd64.Proofs.Machine.Protection

namespace Amd64

/-!
# Blocks run like steps

A block is decoded before it runs, and its operands are bound once; stepping fetches each instruction when
its turn comes and binds its operands anew.

* `Instruction.next_of_execute`   — what is no terminator goes on with the following instruction;
* `Memory.Straight`               — instructions that lie one behind the other in memory;
* `BasicBlock.straight_of_decode` — those of a decoded block do;
* `BasicBlock.run_afterRuns`      — bindings that earlier runs made do not matter;
* `BasicBlock.KeepsCode`          — running the block leaves the bytes of its instructions;
* `BasicBlock.run_decoded`        — then it does what as many steps do.
-/

/-! ### Where execution goes on -/

namespace Exec

/-- Whatever machine `x` starts on, a value that it yields has `P`. -/
def Yields {σ α : Type} (P : α → Prop) (x : Exec σ α) : Prop :=
  ∀ m v, (outcome x m).1 = .ok v → P v

variable {σ α β : Type} {P : β → Prop}

/-- A value yields what holds of it. -/
theorem yields_pure {v : β} (h : P v) : Yields P (pure v : Exec σ β) :=
  fun _ _ hv => Except.ok.inj hv ▸ h

/-- The last part decides what is yielded. -/
theorem yields_bind {x : Exec σ α} {f : α → Exec σ β} (hf : ∀ v, Yields P (f v)) :
    Yields P (x >>= f) := by
  intro m w hw
  rw [outcome_bind] at hw
  generalize outcome x m = p at hw
  obtain ⟨r, m'⟩ := p
  cases r with
  | error e => exact nomatch hw
  | ok v => exact hf v m' w hw

end Exec

open Exec in
/-- **Falling through.** What does not end a block goes on with the following instruction. -/
theorem Instruction.next_of_execute {σ : Type} [Bus σ] {i : Instruction} {b : Binding}
    (h : i.isTerminator = false) : (i.execute b : Exec σ Outcome).Yields (· = .next i.next) := by
  obtain ⟨rip, encoding, o⟩ := i
  cases o with
  | jmp | jcc | call | jmpIndirect | callIndirect | ret | hlt | syscall | ud2 | intrinsic =>
    exact nomatch h
  | nop => exact yields_pure rfl
  | _ => exact yields_bind fun _ => yields_pure rfl

/-- An instruction that does not end a block goes on to the next. -/
theorem rip_of_proceed {σ : Type} [Bus σ] {i : Instruction} {b : Binding} {m m' : Machine σ}
    {exit : StepExit} (h : i.isTerminator = false)
    (hm' : outcome (Exec.retire i b) m = (.ok exit, m')) : m'.cpu.rip = i.next := by
  have hnext := i.next_of_execute h (b := b) m
  rw [Exec.outcome_retire] at hm'
  generalize outcome (i.execute b : Exec σ Outcome) m = p at hnext hm'
  obtain ⟨r, m''⟩ := p
  cases r with
  | error f => exact nomatch hm'
  | ok out =>
    obtain rfl := hnext out rfl
    rw [← (Prod.mk.inj hm').2]
    rfl

/-! ### Instructions one behind the other -/

/-- The instructions lie one behind the other from an address on, and only the last may be a terminator. -/
def Memory.Straight (table : IntrinsicTable) (m : Memory) : UInt64 → List Instruction → Prop
  | _, [] => True
  | a, i :: is =>
    m.instructionAt table a = .ok i ∧ (is ≠ [] → i.isTerminator = false) ∧
      m.Straight table i.next is

/-- At the address of an instruction of straight code this instruction is fetched. -/
theorem Memory.Straight.instructionAt {table : IntrinsicTable} {m : Memory} {a : UInt64}
    {is : List Instruction} (h : m.Straight table a is) {i : Instruction} (hi : i ∈ is) :
    m.instructionAt table i.rip = .ok i := by
  induction is generalizing a with
  | nil => exact nomatch hi
  | cons j is ih =>
    obtain ⟨hfetch, -, hrest⟩ := h
    rcases List.mem_cons.mp hi with rfl | hi
    · rwa [rip_of_instructionAt hfetch]
    · exact ih hrest hi

namespace PreparedInstruction

/-- Binding does not change the instruction. -/
@[simp] theorem bind_instruction (p : PreparedInstruction) : p.bind.instruction = p.instruction := rfl

/-- Binding does not change what operands are bound to. -/
@[simp] theorem bind_binding (p : PreparedInstruction) : p.bind.binding = p.binding := rfl

/-- Without a stored binding the operands are bound anew. -/
@[simp] theorem fresh_binding (i : Instruction) : (fresh i).binding = i.binding := rfl

/-- The instruction is `i`, and if it is bound it is bound as `i` would be now. -/
def Prepares (p : PreparedInstruction) (i : Instruction) : Prop :=
  p.instruction = i ∧ p.binding = i.binding

theorem Prepares.bind {p : PreparedInstruction} {i : Instruction} (h : p.Prepares i) :
    p.bind.Prepares i := h

end PreparedInstruction

namespace BasicBlock

section
variable {table : IntrinsicTable} {m : Machine Memory}

/-- A block is followed through memory without changing anything. -/
theorem outcome_follow {a : UInt64} {i : Instruction} (h : m.bus.instructionAt table a = .ok i)
    (n : Nat) : ∃ is, outcome (follow table i n) m = (.ok is, m) ∧ m.bus.Straight table a is := by
  have hone : m.bus.Straight table a [i] := ⟨h, fun hne => absurd rfl hne, trivial⟩
  induction n generalizing a i with
  | zero => exact ⟨[i], rfl, hone⟩
  | succ n ih =>
    unfold follow
    by_cases hterm : i.isTerminator = true
    · rw [if_pos hterm]
      exact ⟨[i], rfl, hone⟩
    · rw [if_neg hterm]
      simp only [outcome_bind, outcome_tryCatch, outcome_mapResult, Exec.outcome_fetchInstruction]
      cases hnext : m.bus.instructionAt table i.next with
      | error f => exact ⟨[i], rfl, hone⟩
      | ok j =>
        obtain ⟨is, hfollow, hstraight⟩ := ih hnext ⟨hnext, fun hne => absurd rfl hne, trivial⟩
        refine ⟨i :: is, ?_, h, fun _ => Bool.eq_false_iff.mpr hterm, hstraight⟩
        simp only [Except.map, outcome_bind, hfollow]
        rfl

/-- **Decoded blocks.** They have their instructions from memory, and none of them is bound. -/
theorem straight_of_decode {start : UInt64} {limit : Nat} {b : BasicBlock}
    (h : (outcome (decode table start limit) m).1 = .ok b) :
    ∃ is, b = ⟨start, is.map .fresh⟩ ∧ m.bus.Straight table start is := by
  simp only [decode, outcome_bind, Exec.outcome_fetchInstruction] at h
  cases hfetch : m.bus.instructionAt table start with
  | error f =>
    rw [hfetch] at h
    exact nomatch h
  | ok i =>
    obtain ⟨is, hfollow, hstraight⟩ := outcome_follow hfetch (limit - 1)
    rw [hfetch] at h
    simp only [hfollow] at h
    exact ⟨is, (Except.ok.inj h).symm, hstraight⟩

end

/-! ### Running -/

section
variable {σ : Type} [Bus σ]

/-- How instructions run after `executed` others end, and the machine that they leave. -/
def resultFrom (executed : Nat) (ps : List PreparedInstruction) (m : Machine σ) :
    Except Fault BlockExit × Machine σ :=
  (((runFrom executed ps).run m).1.1, ((runFrom executed ps).run m).2)

/-- The instructions with the bindings that were made. -/
def boundFrom (executed : Nat) (ps : List PreparedInstruction) (m : Machine σ) :
    List PreparedInstruction :=
  ((runFrom executed ps).run m).1.2

/-- The first instruction is retired and bound; a block goes on with the others if it proceeds. -/
theorem run_runFrom_cons (executed : Nat) (p : PreparedInstruction) (ps : List PreparedInstruction)
    (m : Machine σ) :
    (runFrom executed (p :: ps)).run m =
      match outcome (Exec.retire p.instruction p.binding) m with
      | (.ok .proceed, m') =>
        (((resultFrom (executed + 1) ps m').1, p.bind :: boundFrom (executed + 1) ps m'),
          (resultFrom (executed + 1) ps m').2)
      | (.ok exit, m') => ((.ok ⟨executed + 1, exit⟩, p.bind :: ps), m')
      | (.error f, m') => ((.error f, p.bind :: ps), m') := by
  rw [runFrom, run_bind_run, p.bind_instruction, p.bind_binding]
  generalize outcome (Exec.retire p.instruction p.binding) m = q
  obtain ⟨r, m'⟩ := q
  cases r with
  | error f => rfl
  | ok exit => cases exit <;> rfl

/-- The result of a block does not show what was bound. -/
theorem resultFrom_cons (executed : Nat) (p : PreparedInstruction) (ps : List PreparedInstruction)
    (m : Machine σ) :
    resultFrom executed (p :: ps) m =
      match outcome (Exec.retire p.instruction p.binding) m with
      | (.ok .proceed, m') => resultFrom (executed + 1) ps m'
      | (.ok exit, m') => (.ok ⟨executed + 1, exit⟩, m')
      | (.error f, m') => (.error f, m') := by
  rw [resultFrom, run_runFrom_cons]
  generalize outcome (Exec.retire p.instruction p.binding) m = q
  obtain ⟨r, m'⟩ := q
  cases r with
  | error f => rfl
  | ok exit => cases exit <;> rfl

/-- The result of a block that has not run before. -/
theorem resultFrom_fresh (executed : Nat) (i : Instruction) (is : List Instruction)
    (m : Machine σ) :
    resultFrom executed ((i :: is).map .fresh) m =
      match outcome (Exec.retire i i.binding) m with
      | (.ok .proceed, m') => resultFrom (executed + 1) (is.map .fresh) m'
      | (.ok exit, m') => (.ok ⟨executed + 1, exit⟩, m')
      | (.error f, m') => (.error f, m') := by
  rw [List.map_cons, resultFrom_cons, PreparedInstruction.fresh_binding]
  rfl

/-! ### Bindings -/

open PreparedInstruction (Prepares)

theorem prepares_fresh (is : List Instruction) : List.Forall₂ Prepares (is.map .fresh) is := by
  induction is with
  | nil => exact .nil
  | cons i is ih => exact .cons ⟨rfl, rfl⟩ ih

/-- Whether and where operands were bound before does not matter. -/
theorem resultFrom_of_prepares {ps : List PreparedInstruction} {is : List Instruction}
    (h : List.Forall₂ Prepares ps is) (executed : Nat) (m : Machine σ) :
    resultFrom executed ps m = resultFrom executed (is.map .fresh) m := by
  induction h generalizing executed m with
  | nil => rfl
  | @cons p i ps is hp hps ih =>
    rw [resultFrom_fresh, resultFrom_cons, hp.1, hp.2]
    simp only [ih]

/-- A run binds operands as they would be bound at any time. -/
theorem prepares_boundFrom {ps : List PreparedInstruction} {is : List Instruction}
    (h : List.Forall₂ Prepares ps is) (executed : Nat) (m : Machine σ) :
    List.Forall₂ Prepares (boundFrom executed ps m) is := by
  induction h generalizing executed m with
  | nil => exact .nil
  | @cons p i ps is hp hps ih =>
    rw [boundFrom, run_runFrom_cons]
    generalize outcome (Exec.retire p.instruction p.binding) m = q
    obtain ⟨r, m'⟩ := q
    cases r with
    | error f => exact .cons hp.bind hps
    | ok exit =>
      cases exit with
      | proceed => exact .cons hp.bind (ih (executed + 1) m')
      | halted => exact .cons hp.bind hps
      | syscall => exact .cons hp.bind hps

/-- The block with the bindings that runs on some machines, one after the other, have made. -/
def afterRuns (b : BasicBlock) (earlier : List (Machine σ)) : BasicBlock :=
  earlier.foldl (fun b m => (b.run.run m).1.2) b

/-- Runs leave all instructions prepared. -/
theorem prepares_afterRuns {b : BasicBlock} {is : List Instruction}
    (h : List.Forall₂ Prepares b.instructions is) (earlier : List (Machine σ)) :
    List.Forall₂ Prepares (b.afterRuns earlier).instructions is := by
  induction earlier generalizing b with
  | nil => exact h
  | cons m earlier ih => exact ih (prepares_boundFrom h 0 m)

/-- **Bindings do not matter.** However often the block has run and on whatever machines, it runs as if
    it had just been decoded. -/
theorem run_afterRuns {b : BasicBlock} {is : List Instruction}
    (h : List.Forall₂ Prepares b.instructions is) (earlier : List (Machine σ)) (m : Machine σ) :
    (((b.afterRuns earlier).run.run m).1.1, ((b.afterRuns earlier).run.run m).2) =
      resultFrom 0 (is.map .fresh) m :=
  resultFrom_of_prepares (prepares_afterRuns h earlier) 0 m

end

/-! ### Blocks and batches -/

/-- Running the block leaves the bytes that its instructions were decoded from: after any number of
    instructions they are what they were. -/
def KeepsCode (b : BasicBlock) (m : Machine Memory) : Prop :=
  ∀ k, ∀ p ∈ b.instructions, ∀ x, p.instruction.rip.toNat ≤ x →
    x < p.instruction.rip.toNat + p.instruction.size →
      ((runFrom 0 (b.instructions.take k)).run m).2.bus.view? x = m.bus.view? x

/-- A block and a batch end alike. -/
def EndsAs : Except Fault BlockExit → BatchResult → Prop
  | .ok e, r => r = ⟨e.executed, e.exit.batchExit⟩
  | .error f, r => r.exit = .fault f

section
variable {table : IntrinsicTable} {m : Machine Memory}

/-- **Blocks are batches.** As long as the bytes of the instructions that are left stay what they were in
    `b`, running these is stepping through them. -/
theorem resultFrom_endsAs {b : Memory} (hb : b.table.WellFormed) {is : List Instruction}
    {executed : Nat} (hstraight : b.Straight table m.cpu.rip is) (hprotects : b.Protects m.bus)
    (hkeeps : ∀ k, ∀ i ∈ is, ∀ x, i.rip.toNat ≤ x → x < i.rip.toNat + i.size →
      (resultFrom executed ((is.take k).map .fresh) m).2.bus.view? x = b.view? x) :
    EndsAs (resultFrom executed (is.map .fresh) m).1
        ((Amd64.runFrom table executed is.length).run m).1 ∧
      (resultFrom executed (is.map .fresh) m).2 =
        ((Amd64.runFrom table executed is.length).run m).2 := by
  -- induction on the instructions that are left, from the machine that the others have left
  induction is generalizing executed m with
  | nil => exact ⟨rfl, rfl⟩
  | cons i is ih =>
    obtain ⟨hfetch, hterm, hrest⟩ := hstraight
    have hrip := Memory.rip_of_instructionAt hfetch
    have hnow : m.bus.instructionAt table m.cpu.rip = .ok i := by
      refine Memory.instructionAt_congr hb hprotects.wellFormed
        (Memory.permissions?_of_segments hb hprotects.wellFormed hprotects.segments) hfetch ?_
      rw [← hrip]
      exact hkeeps 0 i List.mem_cons_self
    have hleft := protects_retire hprotects i i.binding
    have hthere : ∀ m', outcome (Exec.retire i i.binding) m = (.ok .proceed, m') → is ≠ [] →
        m'.cpu.rip = i.next := fun m' hm' hne => rip_of_proceed (hterm hne) hm'
    have hkeeps' : ∀ m', outcome (Exec.retire i i.binding) m = (.ok .proceed, m') → ∀ k, ∀ j ∈ is,
        ∀ x, j.rip.toNat ≤ x → x < j.rip.toNat + j.size →
          (resultFrom (executed + 1) ((is.take k).map .fresh) m').2.bus.view? x = b.view? x := by
      intro m' hm' k j hj
      have hlater := hkeeps (k + 1) j (List.mem_cons_of_mem i hj)
      rwa [List.take_succ_cons, resultFrom_fresh, hm'] at hlater
    have hstep : outcome (Exec.step table) m = outcome (Exec.retire i i.binding) m := by
      rw [Exec.outcome_step, hnow]
    rw [resultFrom_fresh, List.length_cons, runFrom_succ, hstep]
    generalize outcome (Exec.retire i i.binding) m = q at hleft hthere hkeeps' ⊢
    obtain ⟨r, m'⟩ := q
    cases r with
    | error f => exact ⟨rfl, rfl⟩
    | ok exit =>
      cases exit with
      | halted => exact ⟨rfl, rfl⟩
      | syscall => exact ⟨rfl, rfl⟩
      | proceed =>
        refine ih ?_ hleft (hkeeps' m' rfl)
        -- an instruction that others follow goes on with these
        cases is with
        | nil => trivial
        | cons j is => rwa [hthere m' rfl (List.cons_ne_nil j is)]

/-- What runs keeps the segments and the bytes that may not be written. -/
theorem protects_resultFrom {b : Memory} (h : b.Protects m.bus) (executed : Nat)
    (ps : List PreparedInstruction) : b.Protects (resultFrom executed ps m).2.bus := by
  induction ps generalizing executed m with
  | nil => exact h
  | cons p ps ih =>
    have hleft := protects_retire h p.instruction p.binding
    rw [resultFrom_cons]
    generalize outcome (Exec.retire p.instruction p.binding) m = q at hleft ⊢
    obtain ⟨r, m'⟩ := q
    cases r with
    | error f => exact hleft
    | ok exit =>
      cases exit with
      | proceed => exact ih hleft (executed + 1)
      | halted => exact hleft
      | syscall => exact hleft

/-- Where no segment is both writable and executable, nothing can change code. -/
theorem keepsCode_of_segments {start : UInt64} {is : List Instruction}
    (hwf : m.bus.table.WellFormed) (hstraight : m.bus.Straight table start is)
    (hsegments : ∀ s ∈ m.bus.segments,
      ¬ (s.permissions.write = true ∧ s.permissions.execute = true)) :
    KeepsCode ⟨start, is.map .fresh⟩ m := by
  intro k p hp x hlow hx
  obtain ⟨i, hi, rfl⟩ := List.mem_map.mp hp
  obtain ⟨c, hc, hexecute⟩ :=
    Memory.permits_instructionAt hwf (hstraight.instructionAt hi) hlow hx
  -- the byte lies in a segment, which is executable and hence not writable
  have hperm : m.bus.permissions? x = some c.2 := congrArg (Option.map Prod.snd) hc
  rw [Memory.permissions?_eq hwf] at hperm
  obtain ⟨s, hs, hcovers⟩ := List.exists_of_findSome?_eq_some hperm
  have hpermissions : s.permissions = c.2 := by
    split at hcovers
    · exact Option.some.inj hcovers
    · exact nomatch hcovers
  have hwrite : c.2.write = false :=
    Bool.eq_false_iff.mpr fun hwrite => hsegments s hs (hpermissions ▸ ⟨hwrite, hexecute⟩)
  exact ((protects_resultFrom (Memory.protects_self hwf) 0 _).unwritable x c hc hwrite).trans hc.symm

/-- Ends of steps are told apart by ends of batches. -/
theorem batchExit_inj {a b : StepExit} (h : a.batchExit = b.batchExit) : a = b := by
  cases a <;> cases b <;> first | rfl | exact nomatch h

/-- A block that ends well and its batch. -/
theorem EndsAs.ok_iff {r : Except Fault BlockExit} {result : BatchResult} (h : EndsAs r result)
    (n : Nat) (exit : StepExit) : r = .ok ⟨n, exit⟩ ↔ result = ⟨n, exit.batchExit⟩ := by
  cases r with
  | ok e =>
    obtain ⟨executed, e⟩ := e
    obtain rfl : result = ⟨executed, e.batchExit⟩ := h
    constructor
    · intro he
      obtain ⟨rfl, rfl⟩ := BlockExit.mk.inj (Except.ok.inj he)
      rfl
    · intro he
      obtain ⟨rfl, hexit⟩ := BatchResult.mk.inj he
      rw [batchExit_inj hexit]
  | error f =>
    have hfault : result.exit = .fault f := h
    refine ⟨fun he => (nomatch he), fun he => ?_⟩
    rw [he] at hfault
    cases exit <;> exact nomatch hfault

/-- A block that ends with a fault and its batch. -/
theorem EndsAs.error_iff {r : Except Fault BlockExit} {result : BatchResult} (h : EndsAs r result)
    (f : Fault) : r = .error f ↔ result.exit = .fault f := by
  cases r with
  | ok e =>
    obtain rfl : result = ⟨e.executed, e.exit.batchExit⟩ := h
    refine ⟨fun he => (nomatch he), fun he => ?_⟩
    cases hexit : e.exit <;> rw [hexit] at he <;> exact nomatch he
  | error g =>
    have hfault : result.exit = .fault g := h
    rw [hfault]
    constructor
    · intro he
      rw [Except.error.inj he]
    · intro he
      rw [BatchExit.fault.inj he]

/-- **Blocks run like steps.** Take a block that is decoded at the instruction pointer, however long it may
    get.  If running it leaves the bytes that its instructions were decoded from, which is always so where
    no segment is both writable and executable, it leaves the same machine as a batch of as many steps
    and ends in the same way.  It does not matter how often and on which machines it has run before. -/
theorem run_decoded {limit : Nat} {b : BasicBlock} (h : m.bus.Reachable)
    (hb : (outcome (decode table m.cpu.rip limit) m).1 = .ok b) :
    ((∀ s ∈ m.bus.segments, ¬ (s.permissions.write = true ∧ s.permissions.execute = true)) →
        b.KeepsCode m) ∧
      (b.KeepsCode m → ∀ earlier : List (Machine Memory),
        ((b.afterRuns earlier).run.run m).2 = ((runBatch table b.size).run m).2 ∧
          (∀ n exit, ((b.afterRuns earlier).run.run m).1.1 = .ok ⟨n, exit⟩ ↔
            ((runBatch table b.size).run m).1 = ⟨n, exit.batchExit⟩) ∧
          ∀ f, ((b.afterRuns earlier).run.run m).1.1 = .error f ↔
            ((runBatch table b.size).run m).1.exit = .fault f) := by
  obtain ⟨is, rfl, hstraight⟩ := straight_of_decode hb
  refine ⟨keepsCode_of_segments h.wellFormed hstraight, fun hkeeps earlier => ?_⟩
  -- every instruction still finds its own bytes when its turn comes, which is what running it from memory needs
  have hcode : ∀ k, ∀ i ∈ is, ∀ x, i.rip.toNat ≤ x → x < i.rip.toNat + i.size →
      (resultFrom 0 ((is.take k).map .fresh) m).2.bus.view? x = m.bus.view? x := by
    intro k i hi x hlow hx
    rw [List.map_take]
    exact hkeeps k (.fresh i) (List.mem_map_of_mem hi) x hlow hx
  obtain ⟨hends, hleft⟩ :=
    resultFrom_endsAs h.wellFormed hstraight (Memory.protects_self h.wellFormed) hcode
  have hsize : BasicBlock.size ⟨m.cpu.rip, is.map .fresh⟩ = is.length := List.length_map _
  have hrun := run_afterRuns (b := ⟨m.cpu.rip, is.map .fresh⟩) (prepares_fresh is) earlier m
  -- the two halves of the outcome, so that each can be rewritten alone
  have hvalue := congrArg Prod.fst hrun
  have hmachine := congrArg Prod.snd hrun
  simp only at hvalue hmachine
  rw [hsize, hvalue, hmachine, runBatch]
  exact ⟨hleft, hends.ok_iff, hends.error_iff⟩

/-- Code that reads a byte at `rax` and jumps back to itself, where `rax` is as given. -/
def readingLoop (rax : UInt64) : Machine Memory where
  cpu := (Cpu.initial.setRip 0x1000).setGpr .rax rax
  bus := (Memory.empty {}).afterCalls
    [.map ⟨0x1000, 0x1004, .readExecute, 0, "code"⟩ (packed [0x8a, 0x00, 0xeb, 0xfc])]

/-- Both instructions of the block run as two steps do, after the block has run with another address. -/
theorem run_decoded_readingLoop :
    ∃ b, (outcome (decode ⟨[]⟩ 0x1000 8) (readingLoop 0x1000)).1 = .ok b ∧ b.size = 2 ∧
      b.KeepsCode (readingLoop 0x1000) ∧
      ((b.afterRuns [readingLoop 0x1001]).run.run (readingLoop 0x1000)).1.1 = .ok ⟨2, .proceed⟩ ∧
      ((b.afterRuns [readingLoop 0x1001]).run.run (readingLoop 0x1000)).2 =
        ((runBatch ⟨[]⟩ 2).run (readingLoop 0x1000)).2 := by
  have h : (readingLoop 0x1000).bus.Reachable := ⟨_, _, rfl⟩
  have hlength : (outcome (decode ⟨[]⟩ 0x1000 8) (readingLoop 0x1000)).1.map size = .ok 2 := by
    decide +kernel
  have hbatch : ((runBatch ⟨[]⟩ 2).run (readingLoop 0x1000)).1 = ⟨2, .completed⟩ := by
    decide +kernel
  have hsegments : ∀ s ∈ (readingLoop 0x1000).bus.segments,
      ¬ (s.permissions.write = true ∧ s.permissions.execute = true) := by decide +kernel
  cases hb : (outcome (decode ⟨[]⟩ 0x1000 8) (readingLoop 0x1000)).1 with
  | error f =>
    rw [hb] at hlength
    exact nomatch hlength
  | ok b =>
    rw [hb] at hlength
    have hsize : b.size = 2 := Except.ok.inj hlength
    obtain ⟨hkeeps, hrun⟩ := run_decoded h hb
    obtain ⟨hleft, hends, -⟩ := hrun (hkeeps hsegments) [readingLoop 0x1001]
    rw [hsize] at hleft hends
    exact ⟨b, rfl, hsize, hkeeps hsegments, (hends 2 .proceed).mpr hbatch, hleft⟩

end

end BasicBlock

end Amd64
