import Amd64.Proofs.Machine.Block
import Mathlib.Data.List.Forall2

namespace Amd64

/-!
# Blocks are straight and as long as they can be

Over any bus, a block is what fetches one behind the other yield, up to the first terminator, the limit, or a fetch
that fails.

* `Exec.Fetches`, `Contiguous`     — fetches one behind the other, and instructions one behind the other;
* `BasicBlock.exists_follow`       — what the loop of decoding collects, by induction on the limit;
* `BasicBlock.Decoded`             — what is decoded at an address;
* `BasicBlock.RunsThrough`         — before each instruction of a block, the instruction pointer is at it;
* `BasicBlock.decode_straight`     — blocks are decoded so, and are left behind their last instruction only.
-/

/-- The instructions lie one behind the other from an address on. -/
def Contiguous : UInt64 → List Instruction → Prop
  | _, [] => True
  | a, i :: is => i.rip = a ∧ Contiguous i.next is

section
variable {σ : Type} [Bus σ] {table : IntrinsicTable}

/-! ### Fetches -/

namespace Exec

/-- Fetches one behind the other, the first at an address, yield the instructions and lead from one machine to
    another. -/
inductive Fetches (table : IntrinsicTable) :
    UInt64 → List Instruction → Machine σ → Machine σ → Prop where
  | nil (a : UInt64) (m : Machine σ) : Fetches table a [] m m
  | cons {a : UInt64} {i : Instruction} {is : List Instruction} {m m₁ m' : Machine σ}
      (fetch : outcome (fetchInstruction table a) m = (.ok i, m₁))
      (rest : Fetches table i.next is m₁ m') : Fetches table a (i :: is) m m'

variable {a : UInt64} {i : Instruction} {is : List Instruction} {m m' : Machine σ}

/-- What is fetched at an address lies there, whatever the bus. -/
theorem rip_of_fetchInstruction (h : outcome (fetchInstruction table a) m = (.ok i, m')) : i.rip = a := by
  unfold fetchInstruction at h
  cases hroutine : table.get? a with
  | some id =>
    rw [hroutine] at h
    rw [← Except.ok.inj (congrArg Prod.fst h)]
    rfl
  | none =>
    rw [hroutine] at h
    obtain ⟨bytes, m₁, -, hfound⟩ := outcome_bind_eq_ok_iff.mp h
    cases hdecode : decode a (byteList bytes) with
    | error e =>
      rw [hdecode] at hfound
      exact nomatch congrArg Prod.fst hfound
    | ok j =>
      rw [hdecode] at hfound
      obtain rfl : j = i := Except.ok.inj (congrArg Prod.fst hfound)
      exact rip_of_decode hdecode

/-- Instructions that are fetched in a row have addresses in a row. -/
theorem Fetches.contiguous (h : Fetches table a is m m') : Contiguous a is := by
  induction h with
  | nil => trivial
  | cons fetch _ ih => exact ⟨rip_of_fetchInstruction fetch, ih⟩

end Exec

/-! ### Decoding -/

namespace BasicBlock

open Exec (Fetches fetchInstruction)

/-- Why no instruction follows the last one of `is`, where `n` more might: it is a terminator, `n` is zero, or the
    fetch behind it fails. Only a fetch leads from `m` to another machine. -/
inductive StopsAfter (table : IntrinsicTable) (last : Instruction) :
    Nat → Machine σ → Machine σ → Prop where
  | terminator {n : Nat} {m : Machine σ} (h : last.isTerminator = true) : StopsAfter table last n m m
  | limit (m : Machine σ) : StopsAfter table last 0 m m
  | fault {n : Nat} {m m' : Machine σ} {f : Fault} (h : last.isTerminator = false)
      (fetch : outcome (fetchInstruction table last.next) m = (.error f, m')) :
      StopsAfter table last (n + 1) m m'

/-- **The loop.** Behind an instruction, at most `n` others are collected, which are fetched one behind the other. -/
theorem exists_follow (table : IntrinsicTable) (i : Instruction) (n : Nat) (m : Machine σ) :
    ∃ is m₁ m', outcome (follow table i n) m = (.ok (i :: is), m') ∧ Fetches table i.next is m m₁ ∧
      is.length ≤ n ∧ (∀ j ∈ (i :: is).dropLast, j.isTerminator = false) ∧
      StopsAfter table ((i :: is).getLast (List.cons_ne_nil i is)) (n - is.length) m₁ m' := by
  -- on the instructions still allowed; each of the four ends of the decoding loop is one way to stop
  induction n generalizing i m with
  | zero => exact ⟨[], m, m, rfl, .nil _ m, Nat.le_refl 0, by simp, .limit m⟩
  | succ n ih =>
    unfold follow
    by_cases hterm : i.isTerminator = true
    · rw [if_pos hterm]
      exact ⟨[], m, m, rfl, .nil _ m, Nat.zero_le _, by simp, .terminator hterm⟩
    · have hinner : i.isTerminator = false := Bool.eq_false_iff.mpr hterm
      rw [if_neg hterm]
      simp only [outcome_bind, outcome_tryCatch, outcome_mapResult]
      obtain ⟨r, m₁, hfetch⟩ : ∃ r m₁, outcome (fetchInstruction table i.next) m = (r, m₁) := ⟨_, _, rfl⟩
      rw [hfetch]
      cases r with
      | error f => exact ⟨[], m, m₁, rfl, .nil _ m, Nat.zero_le _, by simp, .fault hinner hfetch⟩
      | ok j =>
        -- the rest was decoded from where this fetch left the machine
        obtain ⟨is, m₂, m', hfollow, hfetches, hlength, hinside, hstops⟩ := ih j m₁
        refine ⟨j :: is, m₂, m', ?_, .cons hfetch hfetches, Nat.succ_le_succ hlength, ?_, ?_⟩
        · simp only [Except.map, outcome_bind, hfollow]
          rfl
        · exact List.forall_mem_cons.mpr ⟨hinner, hinside⟩
        · rw [List.length_cons, Nat.succ_sub_succ, List.getLast_cons (List.cons_ne_nil j is)]
          exact hstops

/-- The instructions of a block, without their bindings. -/
def code (b : BasicBlock) : List Instruction :=
  b.instructions.map (·.instruction)

/-- What a block is that is decoded at `start`, by fetches that lead from `m` to `m'`. -/
structure Decoded (b : BasicBlock) (table : IntrinsicTable) (start : UInt64) (limit : Nat)
    (m m' : Machine σ) : Prop where
  place : b.start = start
  /-- It has at least one instruction, and no more than the limit unless this is zero. -/
  size_pos : 1 ≤ b.size
  size_le : b.size ≤ max 1 limit
  /-- The first is at `start`, and each further one at the end of the one in front of it. -/
  contiguous : Contiguous start b.code
  /-- Only the last may be a terminator. -/
  inner : ∀ i ∈ b.code.dropLast, i.isTerminator = false
  /-- It ends with a terminator, at the limit, or where nothing can be fetched behind it. -/
  ends : ∃ m₁, Fetches table start b.code m m₁ ∧
    ((∃ i, b.code.getLast? = some i ∧ i.isTerminator = true) ∧ m' = m₁ ∨
      b.size = max 1 limit ∧ m' = m₁ ∨
      b.size < max 1 limit ∧ ∃ f, outcome (fetchInstruction table b.stop) m₁ = (.error f, m'))
  /-- No operand is bound yet. -/
  fresh : b.instructions = b.code.map .fresh

variable {start : UInt64} {limit : Nat} {b : BasicBlock} {m m' : Machine σ}

/-- What is decoded as a block was fetched in a row up to one of the ends. -/
theorem decoded_of_outcome (h : outcome (decode table start limit) m = (.ok b, m')) :
    b.Decoded table start limit m m' := by
  obtain ⟨i, m₁, hfetch, hrest⟩ := outcome_bind_eq_ok_iff.mp h
  obtain ⟨is, m₂, m₃, hfollow, hfetches, hlength, hinner, hstops⟩ := exists_follow table i (limit - 1) m₁
  obtain ⟨js, m₄, hfollow', hblock⟩ := outcome_bind_eq_ok_iff.mp hrest
  obtain ⟨rfl, rfl⟩ : i :: is = js ∧ m₃ = m₄ := by
    have hsame := hfollow.symm.trans hfollow'
    exact ⟨Except.ok.inj (congrArg Prod.fst hsame), congrArg Prod.snd hsame⟩
  obtain ⟨rfl, rfl⟩ : ⟨start, (i :: is).map .fresh⟩ = b ∧ m₃ = m' :=
    ⟨Except.ok.inj (congrArg Prod.fst hblock), congrArg Prod.snd hblock⟩
  have hcode : code ⟨start, (i :: is).map .fresh⟩ = i :: is := by
    rw [code, List.map_map]
    exact List.map_id _
  have hsize : size ⟨start, (i :: is).map .fresh⟩ = is.length + 1 := List.length_map _
  have hall : Fetches table start (i :: is) m m₂ := .cons hfetch hfetches
  have hlast : (i :: is).getLast? = some ((i :: is).getLast (List.cons_ne_nil i is)) :=
    List.getLast?_eq_some_getLast _
  have hstop : stop ⟨start, (i :: is).map .fresh⟩ = ((i :: is).getLast (List.cons_ne_nil i is)).next := by
    rw [stop, List.getLast?_map, hlast]
    rfl
  constructor
  case place => rfl
  case size_pos => omega
  case size_le => omega
  case contiguous => rw [hcode]; exact hall.contiguous
  case inner => rw [hcode]; exact hinner
  case fresh => rw [hcode]
  case ends =>
    rw [hcode, hsize, hstop]
    refine ⟨m₂, hall, ?_⟩
    -- what is left of the limit decides between a full block and a fetch that failed
    generalize hleft : limit - 1 - is.length = n at hstops
    cases hstops with
    | terminator hterm => exact Or.inl ⟨⟨_, hlast, hterm⟩, rfl⟩
    | limit => exact Or.inr (Or.inl ⟨by omega, rfl⟩)
    | fault _ hfault => exact Or.inr (Or.inr ⟨by omega, _, hfault⟩)

/-- Nothing is decoded where the first fetch fails. -/
theorem outcome_decode_eq_error_iff {f : Fault} :
    outcome (decode table start limit) m = (.error f, m') ↔
      outcome (fetchInstruction table start) m = (.error f, m') := by
  rw [decode, outcome_bind]
  obtain ⟨r, m₁, hfetch⟩ : ∃ r m₁, outcome (fetchInstruction table start) m = (r, m₁) := ⟨_, _, rfl⟩
  rw [hfetch]
  cases r with
  | error e => simp only [Prod.mk.injEq, Except.error.injEq]
  | ok i =>
    obtain ⟨is, -, m₂, hfollow, -⟩ := exists_follow table i (limit - 1) m₁
    simp only [outcome_bind, hfollow, outcome_pure, Prod.mk.injEq, reduceCtorEq, false_and]

/-! ### Running -/

/-- What is no terminator proceeds to the following instruction. -/
theorem proceed_of_retire {i : Instruction} {operands : Binding} {m m' : Machine σ} {exit : StepExit}
    (h : i.isTerminator = false) (hretire : outcome (Exec.retire i operands) m = (.ok exit, m')) :
    exit = .proceed ∧ m'.cpu.rip = i.next := by
  refine ⟨?_, rip_of_proceed h hretire⟩
  have hnext := i.next_of_execute h (b := operands) m
  rw [Exec.outcome_retire] at hretire
  generalize outcome (i.execute operands : Exec σ Outcome) m = p at hnext hretire
  obtain ⟨e | out, m₁⟩ := p
  · exact nomatch congrArg Prod.fst hretire
  · obtain rfl := hnext out rfl
    exact (Except.ok.inj (congrArg Prod.fst hretire)).symm

/-- **Straight runs.** Instructions without a terminator among them end with a fault, or they reach the following one
    with the instruction pointer at it. -/
theorem reaches_next {is : List Instruction} {next : Instruction} {rest : List Instruction}
    (hinner : ∀ i ∈ is, i.isTerminator = false) (executed : Nat) (m : Machine σ)
    (hplace : Contiguous m.cpu.rip (is ++ next :: rest)) :
    (∃ f, (resultFrom executed (is.map .fresh) m).1 = .error f) ∨
      (resultFrom executed (is.map .fresh) m).1 = .ok ⟨executed + is.length, .proceed⟩ ∧
        (resultFrom executed (is.map .fresh) m).2.cpu.rip = next.rip := by
  induction is generalizing executed m with
  | nil => exact Or.inr ⟨rfl, hplace.1.symm⟩
  | cons i is ih =>
    have hi : i.isTerminator = false := hinner i List.mem_cons_self
    have his : ∀ j ∈ is, j.isTerminator = false := fun j hj => hinner j (List.mem_cons_of_mem i hj)
    rw [resultFrom_fresh]
    obtain ⟨r, m', hretire⟩ : ∃ r m', outcome (Exec.retire i i.binding) m = (r, m') := ⟨_, _, rfl⟩
    rw [hretire]
    cases r with
    | error f => exact Or.inl ⟨f, rfl⟩
    | ok exit =>
      obtain ⟨rfl, hrip⟩ := proceed_of_retire hi hretire
      have hrest := ih his (executed + 1) m' (hrip ▸ hplace.2)
      rwa [Nat.add_assoc, Nat.add_comm 1] at hrest

/-- A run without a fault executes all instructions, if only the last may be a terminator. -/
theorem executed_of_resultFrom {is : List Instruction} (hinner : ∀ i ∈ is.dropLast, i.isTerminator = false)
    {executed n : Nat} {m : Machine σ} {exit : StepExit}
    (h : (resultFrom executed (is.map .fresh) m).1 = .ok ⟨n, exit⟩) : n = executed + is.length := by
  induction is generalizing executed m with
  | nil => exact (congrArg BlockExit.executed (Except.ok.inj h)).symm
  | cons i is ih =>
    rw [resultFrom_fresh] at h
    obtain ⟨r, m', hretire⟩ : ∃ r m', outcome (Exec.retire i i.binding) m = (r, m') := ⟨_, _, rfl⟩
    rw [hretire] at h
    cases r with
    | error f => exact nomatch h
    | ok stepExit =>
      cases is with
      | nil => cases stepExit <;> exact (congrArg BlockExit.executed (Except.ok.inj h)).symm
      | cons j is =>
        -- others follow, so this one goes on with them
        obtain ⟨rfl, -⟩ := proceed_of_retire (hinner i List.mem_cons_self) hretire
        rw [ih (fun k hk => hinner k (List.mem_cons_of_mem i hk)) h]
        simp only [List.length_cons]
        omega

/-- How the block is executed on `s`. -/
structure RunsThrough (b : BasicBlock) (s : Machine σ) : Prop where
  /-- Up to any of its instructions there is a fault, or all before it proceed and the instruction pointer is at it. -/
  reaches : ∀ is next rest, b.code = is ++ next :: rest →
    (∃ f, (resultFrom 0 (b.instructions.take is.length) s).1 = .error f) ∨
      (resultFrom 0 (b.instructions.take is.length) s).1 = .ok ⟨is.length, .proceed⟩ ∧
        (resultFrom 0 (b.instructions.take is.length) s).2.cpu.rip = next.rip
  /-- Without a fault, all of them are executed. -/
  executed : ∀ n exit, (b.run.run s).1.1 = .ok ⟨n, exit⟩ → n = b.size

/-- The code of a block is what its prepared instructions are for. -/
theorem code_of_prepares {is : List Instruction}
    (h : List.Forall₂ PreparedInstruction.Prepares b.instructions is) : b.code = is := by
  have hsame : List.Forall₂ (· = ·) b.code is := List.forall₂_map_left_iff.mpr (h.imp fun _ _ hp => hp.1)
  rwa [List.forall₂_eq_eq_eq] at hsame

/-- A block runs through from the address of its first instruction. -/
theorem runsThrough_of_prepares {s : Machine σ} {is : List Instruction}
    (h : List.Forall₂ PreparedInstruction.Prepares b.instructions is)
    (hinner : ∀ i ∈ is.dropLast, i.isTerminator = false) (hplace : Contiguous s.cpu.rip is) : b.RunsThrough s := by
  constructor
  case reaches =>
    intro front next rest hcode
    obtain rfl := (code_of_prepares h).symm.trans hcode
    -- the entries and the plain instructions run alike, which carries the statement over to the block
    have hfront : resultFrom 0 (b.instructions.take front.length) s = resultFrom 0 (front.map .fresh) s := by
      have htake := List.forall₂_take front.length h
      rw [List.take_left] at htake
      exact resultFrom_of_prepares htake 0 s
    have hstraight : ∀ i ∈ front, i.isTerminator = false := by
      intro i hi
      refine hinner i ?_
      rw [List.dropLast_append_of_ne_nil (List.cons_ne_nil next rest)]
      exact List.mem_append_left _ hi
    have hreaches := reaches_next hstraight 0 s hplace
    rwa [← hfront, Nat.zero_add] at hreaches
  case executed =>
    intro n exit hrun
    have hfresh := congrArg Prod.fst (resultFrom_of_prepares h 0 s)
    rw [executed_of_resultFrom hinner (hfresh.symm.trans hrun), Nat.zero_add, ← code_of_prepares h, code,
      List.length_map, size]

/-- **Straight-line blocks.** Whatever the bus, a block that is decoded has at least one instruction and at most as
    many as the limit, one behind the other, of which only the last may be a terminator; it ends with a terminator, at
    the limit, or where a fetch fails, and nothing is decoded only where the first fetch fails.  What is no terminator
    goes on behind itself on every machine, so however often the block has run, it is executed through to its end or
    to a fault. -/
theorem decode_straight (table : IntrinsicTable) (start : UInt64) (limit : Nat) (m : Machine σ) :
    (∀ b m', outcome (decode table start limit) m = (.ok b, m') →
      b.Decoded table start limit m m' ∧
        ∀ (earlier : List (Machine σ)) (s : Machine σ), s.cpu.rip = start →
          (b.afterRuns earlier).RunsThrough s) ∧
      (∀ f m', outcome (decode table start limit) m = (.error f, m') ↔
        outcome (fetchInstruction table start) m = (.error f, m')) ∧
      ∀ rip bytes i, Amd64.decode rip bytes = .ok i → i.isTerminator = false →
        ∀ (s : Machine σ) operands out, (outcome (i.execute operands) s).1 = .ok out →
          out = .next (i.rip + UInt64.ofNat i.size) := by
  refine ⟨fun b m' h => ?_, fun f m' => outcome_decode_eq_error_iff,
    fun rip bytes i _ hterm s operands out hout => i.next_of_execute hterm s out hout⟩
  have hdecoded := decoded_of_outcome h
  refine ⟨hdecoded, fun earlier s hrip => ?_⟩
  have hfresh : List.Forall₂ PreparedInstruction.Prepares b.instructions b.code := by
    rw [hdecoded.fresh]
    exact prepares_fresh b.code
  exact runsThrough_of_prepares (prepares_afterRuns hfresh earlier) hdecoded.inner (hrip ▸ hdecoded.contiguous)

/-- A block of a load and a jump runs through after it has run with another address, and the load goes on with the
    jump. -/
theorem decode_straight_readingLoop :
    let load : Instruction := ⟨0x1000, .ofBytes [0x8a, 0x00],
      .mov (.reg (.low .rax .w8)) (.mem ⟨.register .rax, none, .one, 0, none, false⟩) .w8⟩
    (∃ b m', outcome (decode ⟨[]⟩ 0x1000 8) (readingLoop 0x1000) = (.ok b, m') ∧ b.size = 2 ∧
      b.Decoded ⟨[]⟩ 0x1000 8 (readingLoop 0x1000) m' ∧
      (b.afterRuns [readingLoop 0x1001]).RunsThrough (readingLoop 0x1000)) ∧
    Amd64.decode 0x1000 [0x8a, 0x00] = .ok load ∧ load.isTerminator = false ∧
      (outcome (load.execute load.binding) (readingLoop 0x1000)).1 = .ok (.next 0x1002) := by
  intro load
  obtain ⟨hblocks, -, hnext⟩ := decode_straight ⟨[]⟩ 0x1000 8 (readingLoop 0x1000)
  have hload : Amd64.decode 0x1000 [0x8a, 0x00] = .ok load := by decide +kernel
  have hexecutes : (outcome (load.execute load.binding) (readingLoop 0x1000)).1.isOk = true := by decide +kernel
  have hlength : (outcome (decode ⟨[]⟩ 0x1000 8) (readingLoop 0x1000)).1.map size = .ok 2 := by
    decide +kernel
  refine ⟨?_, hload, rfl, ?_⟩
  · obtain ⟨r, m', hr⟩ : ∃ r m', outcome (decode ⟨[]⟩ 0x1000 8) (readingLoop 0x1000) = (r, m') := ⟨_, _, rfl⟩
    rw [hr] at hlength
    cases r with
    | error f => exact nomatch hlength
    | ok b =>
      obtain ⟨hdecoded, hruns⟩ := hblocks b m' hr
      exact ⟨b, m', hr, Except.ok.inj hlength, hdecoded, hruns [readingLoop 0x1001] _ rfl⟩
  · cases hout : (outcome (load.execute load.binding) (readingLoop 0x1000)).1 with
    | error f =>
      rw [hout] at hexecutes
      exact nomatch hexecutes
    | ok out =>
      rw [hnext 0x1000 _ load hload rfl _ _ out hout]
      decide

end BasicBlock

end

end Amd64
