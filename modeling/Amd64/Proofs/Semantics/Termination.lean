import Amd64.Proofs.Memory.Walks
import Amd64.Proofs.Semantics.BulkRoutines
import Amd64.Proofs.Semantics.Scans
import Amd64.Proofs.Simulation.Run

namespace Amd64

/-!
# Every instruction comes to its end

Repetitions of string instructions, scans for a byte, and the copying and filling of memory are loops without a
bound of their own. What ends them is the count register, the last address of all, which is never mapped, and the
number of bytes that are left.

* `Exec.stringLoop`, `Exec.scanLoop`, `Exec.chunkLoop` — the loops;
* `Exec.ends_stringLoop`, `Exec.ends_scanLoop`, `Exec.ends_chunkLoop` — what each of their turns does;
* `Operation.turns`             — how many turns of its loop an operation may complete;
* `Instruction.executeWithin`   — execution with such loops, which are broken off after so many turns;
* `Instruction.completes_executeWithin` — it is not broken off and does what the instruction does;
* `Exec.LoopsAdvance`           — no turn of a loop leaves it where it was;
* `Instruction.execute_terminates` — execution ends on a bus whose accesses are loops as well.
-/

namespace Exec

variable {σ : Type} [Bus σ]

/-! ### Repetitions -/

/-- A string instruction with its repetition. A turn is a round: the work on one element, then the count. -/
def stringLoop (op : StringOp) (w : Width) (times : Repeat) (narrow : Bool) : Loop Fault (Machine σ) Unit where
  goesOn _ m := times = .none || m.cpu.count narrow ≠ 0
  turn _ := do
    stringStep op w narrow
    if times = .none then return .done ()
    countDown (.low .rcx (pointerWidth narrow))
    if endsEarly times (← cpu).flags then return .done ()
    return .yield ()

section
variable {op : StringOp} {w : Width} {times : Repeat} {narrow : Bool}

/-- A turn ends with the fault of its round, with the last round, or with one off the count. -/
theorem outcome_turn_stringLoop (m : Machine σ) :
    outcome ((stringLoop op w times narrow).turn ()) m =
      match outcome (string op w .none narrow) m with
      | (.error e, m') => (.error e, m')
      | (.ok _, s) =>
        if times = .none then (.ok (.done ()), s)
        else if endsEarly times (s.cpu.countedDown narrow).flags = true then
          (.ok (.done ()), ⟨s.cpu.countedDown narrow, s.bus⟩)
        else (.ok (.yield ()), ⟨s.cpu.countedDown narrow, s.bus⟩) := by
  simp only [stringLoop, string, outcome_bind]
  rcases outcome (stringStep op w narrow) m with ⟨e | u, s⟩
  · rfl
  · dsimp only
    split
    · rfl
    · simp only [countDown, writeReg, outcome_bind, outcome_cpu, outcome_modifyCpu]
      show outcome (if endsEarly times (s.cpu.countedDown narrow).flags then _ else _)
        (⟨s.cpu.countedDown narrow, s.bus⟩ : Machine σ) = _
      split <;> rfl

/-- A repetition has as many rounds as the count says. -/
theorem rounds_of_ne_none (htimes : times ≠ .none) (s : Cpu) :
    s.rounds times narrow = (s.count narrow).toNat := by
  cases times with
  | none => exact absurd rfl htimes
  | rep | repe | repne => rfl

/-- **Repetitions.** A turn fails, or is the last, or takes one off the count. -/
theorem ends_stringLoop (op : StringOp) (w : Width) (times : Repeat) (narrow : Bool) :
    (stringLoop op w times narrow : Loop Fault (Machine σ) Unit).Ends (fun _ _ => True)
      (fun _ m => m.cpu.rounds times narrow) fun _ m r => r = outcome (string op w times narrow) m where
  stops u m _ hstops := by
    obtain ⟨htimes, hzero⟩ : times ≠ .none ∧ m.cpu.count narrow = 0 := by
      simpa [stringLoop] using hstops
    exact (outcome_string_of_ends htimes (.exhausted hzero)).symm
  turns u m _ hgoesOn := by
    rw [outcome_turn_stringLoop]
    -- without a repetition the first turn is the last
    by_cases htimes : times = .none
    · subst htimes
      rcases hwork : outcome (string op w .none narrow) m with ⟨e | v, s⟩
      · exact .fails hwork.symm
      · exact .last hwork.symm Nat.one_pos
    · have hcount : m.cpu.count narrow ≠ 0 := by
        simpa [stringLoop, htimes] using hgoesOn
      rcases hwork : outcome (string op w .none narrow) m with ⟨e | v, s⟩
      · exact .fails (outcome_string_of_ends htimes (.fault hcount hwork)).symm
      · have hround : Round op w narrow m s ⟨s.cpu.countedDown narrow, s.bus⟩ := ⟨hcount, hwork, rfl⟩
        have hless := hround.count_eq
        dsimp only
        rw [if_neg htimes]
        -- a round ends the repetition early, or it takes one off the count and the rest is a repetition
        split
        · next hearly =>
          have hstops := (endsEarly_iff _ _).mp hearly
          refine .last (outcome_string_of_ends htimes (.stopped hround hstops)).symm ?_
          rw [rounds_of_ne_none htimes]
          omega
        · next hlate =>
          refine .again trivial ?_ fun r hr => hr.trans ?_
          · rw [rounds_of_ne_none htimes, rounds_of_ne_none htimes]
            exact Nat.lt_of_succ_le hless.le
          · exact (outcome_string_round htimes hround (mt (endsEarly_iff _ _).mpr hlate)).symm

end

/-! ### Scans -/

/-- A scan for a byte that is zero or meets `stop`. A turn reads a byte. -/
def scanLoop (stop : UInt8 → Bool) : Loop Fault (Machine σ) UInt64 where
  goesOn _ _ := true
  turn a := do
    let b := (← access (Bus.readWord .w8 a)).toUInt8
    if b = 0 || stop b then return .done a
    return .yield (a + 1)

/-- A turn of a search looks at one byte: none is there, it ends the search, or it does not. -/
theorem outcome_turn_scanLoop {m : Machine Memory} (h : m.bus.table.WellFormed) (stop : UInt8 → Bool)
    (a : UInt64) :
    outcome ((scanLoop stop).turn a) m =
      match m.bus.byte? a.toNat with
      | none => (.error (.memory (m.bus.offenseError .read a 1 a.toNat)), m)
      | some b => if b = 0 ∨ stop b = true then (.ok (.done a), m) else (.ok (.yield (a + 1)), m) := by
  have hread : outcome (access (Bus.readWord .w8 a) : Exec Memory UInt64) m =
      ((m.bus.readWord .w8 a).mapError .memory, m) :=
    outcome_access_ask (fun b => b.readWord .w8 a) m
  simp only [scanLoop, outcome_bind, hread, Memory.readWord_w8 h]
  cases m.bus.byte? a.toNat with
  | none => rfl
  | some b =>
    have hbyte : b.toUInt64.toUInt8 = b := UInt8.toUInt8_toUInt64 b
    simp only [Except.mapError, hbyte, Bool.or_eq_true, decide_eq_true_eq]
    split <;> rfl

/-- **Scans.** A turn fails, or is the last, or goes on to an address that is not behind the last of all. -/
theorem ends_scanLoop (stop : UInt8 → Bool) :
    (scanLoop stop : Loop Fault (Machine Memory) UInt64).Ends (fun _ m => m.bus.table.WellFormed)
      (fun a _ => UInt64.size - 1 - a.toNat) fun a m r => r = outcome (scan stop a) m where
  stops _ _ _ hstops := absurd hstops.symm Bool.false_ne_true
  turns a m h _ := by
    have hbound := a.toNat_lt_size
    obtain ⟨fuel, hfuel⟩ := Nat.exists_eq_add_of_lt hbound
    have hscan : outcome (scan stop a : Exec Memory UInt64) m = _ :=
      (congrArg (fun k => outcome (scanFor stop k a) m) (show UInt64.size - a.toNat = fuel + 1 by omega)).trans
        (outcome_scanFor h fuel a)
    rw [outcome_turn_scanLoop h]
    cases hb : m.bus.byte? a.toNat with
    | none =>
      rw [hb] at hscan
      exact .fails hscan.symm
    | some b =>
      rw [hb] at hscan
      dsimp only at hscan ⊢
      -- no byte of the last address may be read
      have hlast : a.toNat + 1 < UInt64.size := by
        by_contra hbeyond
        rw [Memory.byte?_last (Nat.not_lt.mp hbeyond)] at hb
        cases hb
      have hnext := Memory.toNat_add_one hb
      split
      · next hstops =>
        rw [if_pos hstops] at hscan
        exact .last hscan.symm (by omega)
      · next hgoesOn =>
        rw [if_neg hgoesOn] at hscan
        refine .again h (by omega) fun r hr => hr.trans ?_
        rw [hscan, scan, hnext, show UInt64.size - (a.toNat + 1) = fuel by omega]

/-! ### Chunks -/

/-- Moves `count` bytes chunk by chunk. A turn moves the next ones behind those that were moved before. -/
def chunkLoop (count : Nat) (move : Nat → Nat → Exec σ Unit) : Loop Fault (Machine σ) Nat where
  goesOn moved _ := moved < count
  turn moved := do
    let size := chunk (count - moved)
    move moved size
    return .yield (moved + size)

/-- Copies `size` bytes that lie `moved` bytes behind `src` to the place `moved` bytes behind `dst`. -/
def copyChunk (dst src : UInt64) (moved size : Nat) : Exec σ Unit := do
  let bytes ← access (Bus.readBytes (src + UInt64.ofNat moved) size)
  access (Bus.writeBytes (dst + UInt64.ofNat moved) bytes)

/-- Fills `size` bytes that lie `moved` bytes behind `dst`. -/
def fillChunk (dst : UInt64) (b : UInt8) (moved size : Nat) : Exec σ Unit :=
  access (Bus.writeBytes (dst + UInt64.ofNat moved) (packed (List.replicate size b)))

omit [Bus σ] in
/-- **Chunks.** A turn fails or moves at least one byte and not more than are left. -/
theorem ends_chunkLoop {count : Nat} {move : Nat → Nat → Exec σ Unit} {rest : Nat → Exec σ Unit}
    (hrest : ∀ moved, moved < count →
      rest moved = do
        move moved (chunk (count - moved))
        rest (moved + chunk (count - moved)))
    (hnothing : rest count = pure ()) :
    (chunkLoop count move).Ends (fun moved _ => moved ≤ count) (fun moved _ => count - moved)
      fun moved m r => (r.1.map fun _ => (), r.2) = outcome (rest moved) m where
  stops moved m hle hstops := by
    -- the loop stops at the count exactly
    obtain rfl : moved = count := Nat.le_antisymm hle (Nat.not_lt.mp (of_decide_eq_false hstops))
    rw [hnothing]
    rfl
  turns moved m hle hgoesOn := by
    have hmore : moved < count := of_decide_eq_true hgoesOn
    have hpos := chunk_pos (Nat.sub_ne_zero_of_lt hmore)
    have hsize := chunk_le (count - moved)
    have hmoves := hrest moved hmore
    show Loop.TurnDoes _ _ _ moved m (outcome (do
      move moved (chunk (count - moved))
      return .yield (moved + chunk (count - moved))) m)
    rw [outcome_bind]
    rcases hmove : outcome (move moved (chunk (count - moved))) m with ⟨e | u, m'⟩
    -- a refused chunk ends both loops at the same place
    · refine .fails ?_
      rw [hmoves, outcome_bind, hmove]
      rfl
    · refine .again (by omega) (by omega) fun r hr => ?_
      rw [hmoves, outcome_bind, hmove]
      exact hr

/-- A copy that is under way moves a chunk and is a copy of the rest. -/
theorem copyBytes_chunk (dst src : UInt64) (count moved : Nat) (hmoved : moved < count) :
    (copyBytes (dst + UInt64.ofNat moved) (src + UInt64.ofNat moved) (count - moved) : Exec σ Unit) = (do
      copyChunk dst src moved (chunk (count - moved))
      copyBytes (dst + UInt64.ofNat (moved + chunk (count - moved)))
        (src + UInt64.ofNat (moved + chunk (count - moved))) (count - (moved + chunk (count - moved)))) := by
  rw [copyBytes, if_neg (Nat.sub_ne_zero_of_lt hmoved), UInt64.ofNat_add, ← UInt64.add_assoc, ← UInt64.add_assoc,
    ← Nat.sub_sub, copyChunk, bind_assoc]
  rfl

/-- A fill that is under way fills a chunk and is a fill of the rest. -/
theorem fillBytes_chunk (dst : UInt64) (b : UInt8) (count moved : Nat) (hmoved : moved < count) :
    (fillBytes (dst + UInt64.ofNat moved) b (count - moved) : Exec σ Unit) = (do
      fillChunk dst b moved (chunk (count - moved))
      fillBytes (dst + UInt64.ofNat (moved + chunk (count - moved))) b
        (count - (moved + chunk (count - moved)))) := by
  rw [fillBytes, if_neg (Nat.sub_ne_zero_of_lt hmoved), UInt64.ofNat_add, ← UInt64.add_assoc, ← Nat.sub_sub]
  rfl

/-- The loop of chunks copies what is left, and every turn leaves less. -/
theorem ends_chunkLoop_copy (dst src : UInt64) (count : Nat) :
    (chunkLoop count (copyChunk dst src) : Loop Fault (Machine σ) Nat).Ends (fun moved _ => moved ≤ count)
      (fun moved _ => count - moved) fun moved m r => (r.1.map fun _ => (), r.2) =
        outcome (copyBytes (dst + UInt64.ofNat moved) (src + UInt64.ofNat moved) (count - moved)) m :=
  ends_chunkLoop (copyBytes_chunk dst src count) (by rw [Nat.sub_self, copyBytes_zero])

/-- The loop of chunks fills what is left, and every turn leaves less. -/
theorem ends_chunkLoop_fill (dst : UInt64) (b : UInt8) (count : Nat) :
    (chunkLoop count (fillChunk dst b) : Loop Fault (Machine σ) Nat).Ends (fun moved _ => moved ≤ count)
      (fun moved _ => count - moved) fun moved m r => (r.1.map fun _ => (), r.2) =
        outcome (fillBytes (dst + UInt64.ofNat moved) b (count - moved)) m :=
  ends_chunkLoop (fillBytes_chunk dst b count) (by rw [Nat.sub_self, fillBytes_zero])

omit [Bus σ] in
/-- A loop from nothing on that does what `act` does, before a value is returned. -/
theorem completes_chunkLoop {count n : Nat} {move : Nat → Nat → Exec σ Unit} {act : Exec σ Unit}
    {inv : Nat → Machine σ → Prop} {left : Nat → Machine σ → Nat}
    {result : Nat → Machine σ → Except Fault Nat × Machine σ → Prop}
    (h : (chunkLoop count move).Ends inv left result) {m : Machine σ} (hinv : inv 0 m) (hn : left 0 m ≤ n)
    (hact : ∀ r, result 0 m r → (r.1.map fun _ => (), r.2) = outcome act m) (v : UInt64) :
    Completes (whenCompleted ((chunkLoop count move).within n 0) fun _ => return v) (do act; return v) m := by
  obtain ⟨⟨result, m'⟩, hr, hwithin⟩ := h.exists_within hinv
  rw [Completes, whenCompleted, outcome_bind, outcome_bind, hwithin n hn, ← hact _ hr]
  cases result <;> rfl

/-! ### Routines -/

/-- The result of a routine whose loop may complete so many turns. -/
def routineWithin (n : Nat) (id : Intrinsic) (s : Cpu) : Exec σ (Option UInt64) :=
  let target := s.gpr .rdi
  let source := s.gpr .rsi
  let count := (s.gpr .rdx).toNat
  match id with
  | .strlen => whenCompleted ((scanLoop fun _ => false).within n target) fun a => return a - target
  | .strchrnul => (scanLoop fun b => b = source.toUInt8).within n target
  | .memcpy => whenCompleted ((chunkLoop count (copyChunk target source)).within n 0) fun _ => return target
  | .memset => whenCompleted ((chunkLoop count (fillChunk target source.toUInt8)).within n 0) fun _ => return target

/-- Performs a routine whose loop may complete so many turns. -/
def intrinsicWithin (n : Nat) (id : Intrinsic) : Exec σ (Option UInt64) := do
  let s ← cpu
  let top := s.gpr .rsp
  let target ← access (Bus.readWord .w64 top)
  whenCompleted (routineWithin n id s) fun result => do
    setGpr .rax result
    setGpr .rsp (top + 8)
    return target

end Exec

/-- How many turns the loop of a routine may complete. A scan reads no more bytes than there are from `rdi` on,
    without the one at the last address of all. -/
def Intrinsic.turns (id : Intrinsic) (s : Cpu) : Nat :=
  match id with
  | strlen | strchrnul => UInt64.size - 1 - (s.gpr .rdi).toNat
  | memcpy | memset => (s.gpr .rdx).toNat

/-- How many turns the loop of an operation may complete, if it has one. -/
def Operation.turns (o : Operation) (s : Cpu) : Nat :=
  match o with
  | string _ _ times narrow => s.rounds times narrow
  | intrinsic id => id.turns s
  | _ => 0

namespace Exec

section
variable {m : Machine Memory} {n : Nat}

/-- With enough turns a routine completes. -/
theorem completes_routineWithin (h : m.bus.table.WellFormed) (id : Intrinsic) {s : Cpu} (hn : id.turns s ≤ n) :
    Completes (routineWithin n id s) (routine id s) m := by
  cases id with
  | strlen => exact ((ends_scanLoop _).completes h hn).whenCompleted _
  | strchrnul => exact (ends_scanLoop _).completes h hn
  | memcpy =>
    refine completes_chunkLoop (ends_chunkLoop_copy _ _ _) (Nat.zero_le _) hn (fun r hr => ?_) _
    rw [hr]
    simp
  | memset =>
    refine completes_chunkLoop (ends_chunkLoop_fill _ _ _) (Nat.zero_le _) hn (fun r hr => ?_) _
    rw [hr]
    simp

/-- Reading the return address changes neither the registers nor the address space. -/
theorem completes_intrinsicWithin (h : m.bus.table.WellFormed) (id : Intrinsic) (hn : id.turns m.cpu ≤ n) :
    Completes (intrinsicWithin n id) (intrinsic id) m := by
  refine Completes.bind fun s m' hcpu => Completes.bind fun target m'' htop => ?_
  cases hcpu
  have hsame := outcome_access_ask (fun b => b.readWord .w64 (m.cpu.gpr .rsp)) m
  obtain rfl : m'' = m := (congrArg Prod.snd (htop.symm.trans hsame))
  exact (completes_routineWithin h id hn).whenCompleted _

end

end Exec

/-! ### Instructions -/

namespace Instruction

open Exec

variable {σ : Type} [Bus σ]

/-- Executes an instruction whose loop, if it has one, may complete so many turns. -/
def executeWithin (n : Nat) (i : Instruction) (b : Binding) : Exec σ (Option Outcome) :=
  match i.operation with
  | .string op w times narrow =>
    whenCompleted ((stringLoop op w times narrow).within n ()) fun _ => return .next i.next
  | .intrinsic id => whenCompleted (intrinsicWithin n id) fun target => return .next target
  | _ => some <$> i.execute b

/-- **Execution.** With as many turns as the operation needs, no loop is broken off. -/
theorem completes_executeWithin {m : Machine Memory} {n : Nat} (h : m.bus.table.WellFormed) (i : Instruction)
    (b : Binding) (hn : i.operation.turns m.cpu ≤ n) : Completes (i.executeWithin n b) (i.execute b) m := by
  obtain ⟨rip, encoding, o⟩ := i
  cases o
  case string op w times narrow => exact ((ends_stringLoop op w times narrow).completes trivial hn).whenCompleted _
  case intrinsic id => exact (completes_intrinsicWithin h id hn).whenCompleted _
  -- all other operations have no loop
  all_goals exact completes_some _ m

end Instruction

/-! ### Accesses by walks -/

section

open Machine (Related)

variable {σ τ : Type} {E : Cpu → Cpu → Prop} {S : σ → τ → Prop} [Bus σ] [Bus τ]
  (h : Machine.Congruence E S) (n : Nat)

include h

namespace Exec

/-- On related machines a string instruction takes related turns. -/
theorem alike_stringLoop (op : StringOp) (w : Width) (times : Repeat) (narrow : Bool) :
    Alike (Related E S) ((stringLoop op w times narrow).within n ()) ((stringLoop op w times narrow).within n ()) := by
  refine Loop.alike_within (fun u s t hst => ?_) (fun u => ?_) n ()
  · have hcount : s.cpu.count narrow = t.cpu.count narrow := by
      rw [Cpu.count, Cpu.count, (h.cpu.agrees hst.1).readReg]
    simp only [stringLoop, hcount]
  · refine (alike_stringStep h w op narrow).bind fun _ => Alike.ite (alike_pure _) (Alike.bind ?_ fun _ => ?_)
    · refine alike_cpu h fun s t hst => ?_
      rw [hst.readReg]
      exact alike_writeReg h _ _
    · refine alike_cpu h fun s t hst => ?_
      rw [hst.flags]
      exact Alike.ite (alike_pure _) (alike_pure _)

/-- On related machines a search takes related turns. -/
theorem alike_scanLoop (stop : UInt8 → Bool) (a : UInt64) :
    Alike (Related E S) ((scanLoop stop).within n a) ((scanLoop stop).within n a) := by
  refine Loop.alike_within (fun _ _ _ _ => rfl) (fun a => ?_) n a
  exact (alike_access (h.bus.readWord .w8 a)).bind fun b => Alike.ite (alike_pure _) (alike_pure _)

omit h [Bus σ] [Bus τ] in
/-- On related machines the chunks are moved alike if each of them is. -/
theorem alike_chunkLoop (count : Nat) {move : Nat → Nat → Exec σ Unit} {move' : Nat → Nat → Exec τ Unit}
    (hmove : ∀ moved size, Alike (Related E S) (move moved size) (move' moved size)) :
    Alike (Related E S) ((chunkLoop count move).within n 0) ((chunkLoop count move').within n 0) :=
  Loop.alike_within (fun _ _ _ _ => rfl) (fun _ => (hmove _ _).bind fun _ => alike_pure _) n 0

/-- On related machines a routine takes related turns. -/
theorem alike_routineWithin (id : Intrinsic) {s t : Cpu} (hst : s.Agrees t) :
    Alike (Related E S) (routineWithin n id s) (routineWithin n id t) := by
  unfold routineWithin
  rw [hst.gpr]
  cases id with
  | strlen => exact (alike_scanLoop h n _ _).whenCompleted fun _ => alike_pure _
  | strchrnul => exact alike_scanLoop h n _ _
  | memcpy =>
    refine (alike_chunkLoop n _ fun moved size => ?_).whenCompleted fun _ => alike_pure _
    exact (alike_access (h.bus.readBytes _ _)).bind fun bs => alike_access (h.bus.writeBytes _ bs)
  | memset =>
    refine (alike_chunkLoop n _ fun moved size => ?_).whenCompleted fun _ => alike_pure _
    exact alike_access (h.bus.writeBytes _ _)

end Exec

open Exec

/-- **Execution with loops.** An instruction does to related machines the same, and is broken off on both or none. -/
theorem Instruction.alike_executeWithin (i : Instruction) (b : Binding) :
    Alike (Related E S) (i.executeWithin n b) (i.executeWithin n b) := by
  obtain ⟨rip, encoding, o⟩ := i
  cases o
  case string op w times narrow => exact (alike_stringLoop h n op w times narrow).whenCompleted fun _ => alike_pure _
  case intrinsic id =>
    refine Alike.whenCompleted (alike_cpu h fun s t hst => ?_) fun _ => alike_pure _
    rw [hst.gpr]
    refine (alike_access (h.bus.readWord .w64 _)).bind fun target => ?_
    refine (alike_routineWithin h n id hst).whenCompleted fun result => ?_
    exact (alike_setGpr h _ _).bind fun _ => (alike_setGpr h _ _).bind fun _ => alike_pure target
  all_goals exact (alike_execute h _ b).bind fun outcome => alike_pure (some outcome)

end

/-- The machine with accesses by walks. -/
def Machine.walked (m : Machine Memory) : Machine Walked :=
  ⟨m.cpu, ⟨some m.bus⟩⟩

namespace Exec

/-- Each loop that instructions have takes at least one step of its way in each turn. -/
structure LoopsAdvance : Prop where
  /-- The work on one element of a string does not write the count register. -/
  element (op : StringOp) (w : Width) (narrow : Bool) (m : Machine Memory) :
    (outcome (string op w .none narrow) m).2.cpu.gpr .rcx = m.cpu.gpr .rcx
  /-- A turn of a repetition leaves fewer rounds. -/
  string (op : StringOp) (w : Width) (times : Repeat) (narrow : Bool) :
    (stringLoop op w times narrow : Loop Fault (Machine Memory) Unit).Advances (fun _ _ => True)
      fun _ m => m.cpu.rounds times narrow
  /-- Nothing is mapped at the last address of all, -/
  last (m : Memory) : m.view? (UInt64.size - 1) = none
  /-- to which a turn of a scan comes closer. -/
  scan (stop : UInt8 → Bool) :
    (scanLoop stop : Loop Fault (Machine Memory) UInt64).Advances (fun _ m => m.bus.table.WellFormed)
      fun a _ => UInt64.size - 1 - a.toNat
  /-- A turn of copying or filling moves more bytes, up to as many as there are to move. -/
  copy (dst src : UInt64) (count : Nat) :
    (chunkLoop count (copyChunk dst src) : Loop Fault (Machine Memory) Nat).Advances (fun moved _ => moved ≤ count)
      fun moved _ => count - moved
  fill (dst : UInt64) (b : UInt8) (count : Nat) :
    (chunkLoop count (fillChunk dst b) : Loop Fault (Machine Memory) Nat).Advances (fun moved _ => moved ≤ count)
      fun moved _ => count - moved
  /-- A turn of a walk along segments leaves fewer bytes to check, to read, to write or to fetch. -/
  check (access : Access) (enforce : Bool) (a : UInt64) (n : Nat) :
    (Memory.checkLoop access enforce a n).Advances (fun _ m => m.table.WellFormed) fun cursor _ => cursor.left
  copyOut (a : UInt64) (n : Nat) :
    (Memory.copyOutLoop a n).Advances (fun copied m => m.table.WellFormed ∧ copied.size ≤ n)
      fun copied _ => n - copied.size
  copyIn (a : UInt64) (data : ByteArray) :
    (Memory.copyInLoop a data).Advances (fun written m => m.table.WellFormed ∧ written ≤ data.size)
      fun written _ => data.size - written
  fetch (a : UInt64) (n : Nat) :
    (Memory.fetchLoop a n).Advances (fun copied m => m.table.WellFormed ∧ copied.size ≤ n)
      fun copied _ => n - copied.size

/-- Each loop leaves less to do with every turn. -/
theorem loopsAdvance : LoopsAdvance where
  element op w narrow m := keeps_rcx_stringStep op w narrow m
  string op w times narrow := (ends_stringLoop op w times narrow).advances
  last m := m.view?_eq_none_of_last (Nat.le_refl _)
  scan stop := (ends_scanLoop stop).advances
  copy dst src count := (ends_chunkLoop_copy dst src count).advances
  fill dst b count := (ends_chunkLoop_fill dst b count).advances
  check access enforce a n := (Memory.ends_checkLoop access enforce a n).advances
  copyOut a n := (Memory.ends_copyOutLoop (fun _ => true) a n).advances
  copyIn a data := (Memory.ends_copyInLoop (fun _ => true) a data).advances
  fetch a n := (Memory.ends_fetchLoop a n).advances

end Exec

/-- **Termination.** On a reachable address space every instruction comes to its end, whatever the registers and its
    operands are, even if each of its accesses walks along the segments with a turn for each byte at most, and if its
    own loop may complete only so many turns: a repetition as many as the count register says, a scan one for each
    byte from `rdi` to the last address but one, and copying and filling one for each byte in `rdx`. What it does
    then is what execution says. -/
theorem Instruction.execute_terminates {m : Machine Memory} (h : m.bus.Reachable) :
    (∀ (i : Instruction) (b : Binding) (n : Nat), i.operation.turns m.cpu ≤ n →
      outcome (i.executeWithin n b) m.walked =
        ((outcome (i.execute b) m).1.map some, (outcome (i.execute b) m).2.walked)) ∧
    Exec.LoopsAdvance := by
  refine ⟨fun i b n hn => ?_, Exec.loopsAdvance⟩
  have hwf := h.wellFormed
  have hrelated : Machine.Congruence (· = ·) Walked.Follows := ⟨Cpu.congruence_eq, Walked.congruence⟩
  obtain ⟨hresult, hcpu, hbus, -⟩ := alike_executeWithin hrelated n i b m.walked m ⟨rfl, rfl, hwf⟩
  have hcompletes : outcome (i.executeWithin n b) m = _ := completes_executeWithin hwf i b hn
  rw [hcompletes] at hresult hcpu hbus
  generalize outcome (i.executeWithin n b) m.walked = p at hresult hcpu hbus ⊢
  obtain ⟨result, cpu, ⟨memory?⟩⟩ := p
  cases hresult
  cases hcpu
  cases hbus
  rfl

/-- Three words are to be stored from the middle of a segment on, of which the third does not fit in the segment
    behind it. After two turns with walks through both segments the repetition ends with the fault. -/
theorem Instruction.execute_terminates_stos :
    let bus : Memory := (Memory.empty ⟨0x10000, 0x20000⟩).afterCalls
      [.map ⟨0x2000, 0x2002, .readWrite, 0, "front"⟩ (packed [0, 0]),
        .map ⟨0x2002, 0x2006, .readWrite, 0, "back"⟩ (packed [0, 0, 0, 0])]
    let m : Machine Memory := ⟨((Cpu.initial.setGpr .rax 0x1234).setGpr .rdi 0x2001).setGpr .rcx 3, bus⟩
    let i : Instruction := ⟨0x1000, .ofBytes [0xf3, 0x66, 0xab], .string .stos .w16 .rep false⟩
    decode 0x1000 [0xf3, 0x66, 0xab] = .ok i ∧ i.operation.turns m.cpu = 3 ∧
      ∃ m', outcome (i.executeWithin 3 i.binding) m.walked =
          (.error (.memory (.unmapped 0x2005 2)), Machine.walked m') ∧
        m'.cpu.gpr .rcx = 1 ∧ m'.bus.view? 0x2002 = some (0x12, .readWrite) := by
  intro bus m i
  have hturns : i.operation.turns m.cpu = 3 := by decide +kernel
  have hfault : (outcome (i.execute i.binding) m).1 = .error (.memory (.unmapped 0x2005 2)) := by decide +kernel
  have hreachable : m.bus.Reachable := ⟨_, _, rfl⟩
  have hends := (execute_terminates hreachable).1 i i.binding 3 hturns.le
  rw [hfault] at hends
  exact ⟨by decide +kernel, hturns, _, hends, by decide +kernel, by decide +kernel⟩

end Amd64
