import Amd64.Proofs.Machine.Protection
import Amd64.Proofs.Memory.Unchanged
import Amd64.Proofs.Trace.StepLog

namespace Amd64

/-!
# The accesses of a trace account for the memory

Whoever replays the accesses of a recorded run on the memory that it began with comes to the memory that it
ended with, and on the way finds every value that was read where the trace says it was read.

* `MemoryEvent.replay`, `Memory.replay` — what accesses do to a memory;
* `Memory.Replays`         — accesses that lead from one memory to another, with values that are there;
* `MemoryEvent.pieces_induction` — runs of bytes, piece by piece;
* `Memory.replays_readPieces`, `Memory.replays_writePieces` — they are read and written in pieces;
* `Watched.busCongruence_logs` — what is kept of accesses leads to the memory that they leave;
* `recorded_accesses_replay`   — the accesses in the records of a run.
-/

namespace MemoryEvent

/-- Does what the access did: a write stores its value, and a read does nothing. -/
def replay (e : MemoryEvent) : MemoryM Unit :=
  if e.write then Memory.poke e.address (packed (LittleEndian.bytes e.size.toNat e.value.toNat))
  else pure ()

/-- The bytes at the address of the access are those of its value. -/
def HoldsIn (e : MemoryEvent) (m : Memory) : Prop :=
  ∃ bs, m.peek e.address e.size.toNat = .ok bs ∧ littleEndian bs = e.value.toNat

/-- An access of a run of bytes at once. -/
def ofBytes (write : Bool) (a : UInt64) (bs : List UInt8) : MemoryEvent :=
  ⟨a, UInt8.ofNat bs.length, write, BitVec.ofNat 128 (LittleEndian.value bs)⟩

variable {bs : List UInt8}

/-- The size of an event is the number of its bytes. -/
theorem toNat_size_ofBytes (write : Bool) (a : UInt64) (h : bs.length ≤ 16) :
    (ofBytes write a bs).size.toNat = bs.length := by
  have hsize : UInt8.size = 256 := rfl
  exact UInt8.toNat_ofNat_of_lt' (by omega)

/-- The value of an event is the number of its bytes. -/
theorem toNat_value_ofBytes (write : Bool) (a : UInt64) (h : bs.length ≤ 16) :
    (ofBytes write a bs).value.toNat = LittleEndian.value bs := by
  have hlt : LittleEndian.value bs < 256 ^ 16 :=
    Nat.lt_of_lt_of_le (LittleEndian.value_lt bs) (Nat.pow_le_pow_right (by decide) h)
  exact (BitVec.toNat_ofNat _ _).trans (Nat.mod_eq_of_lt (Nat.lt_of_lt_of_le hlt (by decide)))

/-- Sizes of accesses. -/
def sizes : List Nat := [1, 2, 4, 8, 16]

/-- A piece has one of the sizes. -/
theorem pieceSize_mem (n : Nat) : pieceSize n ∈ sizes := by
  unfold pieceSize
  repeat' split
  all_goals decide

/-- A piece is not longer than what is left. -/
theorem pieceSize_le {n : Nat} (h : n ≠ 0) : pieceSize n ≤ n := by
  grind [pieceSize]

/-- The largest size is 16. -/
theorem le_of_mem_sizes {n : Nat} (h : n ∈ sizes) : n ≤ 16 := by
  simp only [sizes, List.mem_cons, List.not_mem_nil, or_false] at h
  omega

/-- **Runs of bytes.** Induction on the pieces of a run. -/
theorem pieces_induction {write : Bool} {motive : UInt64 → List UInt8 → List MemoryEvent → Prop}
    (nil : ∀ a, motive a [] [])
    (piece : ∀ a xs ys es, xs.length = pieceSize (xs.length + ys.length) →
      motive (a + UInt64.ofNat xs.length) ys es → motive a (xs ++ ys) (ofBytes write a xs :: es))
    (a : UInt64) (bs : List UInt8) : motive a bs (pieces write a bs) := by
  fun_induction pieces write a bs with
  | case1 a => exact nil a
  | case2 a b rest size value ih =>
    have hle : size ≤ (b :: rest).length := pieceSize_le (Nat.succ_ne_zero rest.length)
    have hlength : ((b :: rest).take size).length = size := by
      rw [List.length_take, Nat.min_eq_left hle]
    have hrun := piece a ((b :: rest).take size) ((b :: rest).drop size) _
      (by rw [← List.length_append, List.take_append_drop, hlength]) (by rw [hlength]; exact ih)
    rwa [List.take_append_drop, ofBytes, hlength] at hrun

end MemoryEvent

namespace Memory

/-- Does what all accesses did, one after the other. -/
def replay : List MemoryEvent → MemoryM Unit
  | [] => pure ()
  | e :: es => do
    e.replay
    replay es

/-- Accesses of the usual sizes lead from `m` to `m'`, and what was read is there when it was read. -/
def Replays : List MemoryEvent → Memory → Memory → Prop
  | [], m, m' => m = m'
  | e :: es, m, m' => ∃ m₁, outcome e.replay m = (.ok (), m₁) ∧ e.size.toNat ∈ MemoryEvent.sizes ∧
      (e.write = false → e.HoldsIn m) ∧ Replays es m₁ m'

variable {m m₁ m' : Memory} {es fs : List MemoryEvent}

/-- Events are replayed one after the other. -/
theorem Replays.append (h : Replays es m m₁) (h' : Replays fs m₁ m') : Replays (es ++ fs) m m' := by
  induction es generalizing m with
  | nil =>
    obtain rfl : m = m₁ := h
    exact h'
  | cons e es ih =>
    obtain ⟨m₂, hfirst, hsize, hholds, hrest⟩ := h
    exact ⟨m₂, hfirst, hsize, hholds, ih hrest⟩

/-- The accesses can be replayed, and lead to `m'`. -/
theorem Replays.outcome_replay (h : Replays es m m') : outcome (replay es) m = (.ok (), m') := by
  induction es generalizing m with
  | nil =>
    obtain rfl : m = m' := h
    rfl
  | cons e es ih =>
    obtain ⟨m₁, hfirst, -, -, hrest⟩ := h
    exact outcome_bind_eq_ok_iff.mpr ⟨(), m₁, hfirst, ih hrest⟩

/-- What was read is there when the accesses before it have been replayed. -/
theorem Replays.exists_holdsIn {before later : List MemoryEvent} {e : MemoryEvent}
    (h : Replays (before ++ e :: later) m m') (hread : e.write = false) :
    ∃ m₁, outcome (replay before) m = (.ok (), m₁) ∧ e.HoldsIn m₁ := by
  induction before generalizing m with
  | nil =>
    obtain ⟨-, -, -, hholds, -⟩ := h
    exact ⟨m, rfl, hholds hread⟩
  | cons d before ih =>
    obtain ⟨m₁, hfirst, -, -, hrest⟩ := h
    obtain ⟨m₂, hreplay, hholds⟩ := ih hrest
    exact ⟨m₂, outcome_bind_eq_ok_iff.mpr ⟨(), m₁, hfirst, hreplay⟩, hholds⟩

/-- Events that can be replayed have one of the sizes. -/
theorem Replays.size_mem {e : MemoryEvent} (h : Replays es m m') (he : e ∈ es) :
    e.size.toNat ∈ MemoryEvent.sizes := by
  induction es generalizing m with
  | nil => cases he
  | cons d es ih =>
    obtain ⟨m₁, -, hsize, -, hrest⟩ := h
    obtain rfl | he := List.mem_cons.mp he
    · exact hsize
    · exact ih hrest he

/-! ### Single accesses -/

variable {a : UInt64}

/-- A read is accounted for by the bytes that it yields. -/
theorem replays_read (h : m.table.WellFormed) {n : Nat} {bs : ByteArray} (hn : n ∈ MemoryEvent.sizes)
    (hread : m.readBytes a n = .ok bs) : Replays [.ofBytes false a (byteList bs)] m m := by
  have hlength := length_of_load h hread
  have hle : (byteList bs).length ≤ 16 := hlength ▸ MemoryEvent.le_of_mem_sizes hn
  have hsize := MemoryEvent.toNat_size_ofBytes false a hle
  refine ⟨m, rfl, by rw [hsize, hlength]; exact hn, fun _ => ⟨bs, ?_, ?_⟩, rfl⟩
  · rw [hsize, hlength]
    exact load_of_enforced h hread
  · exact (MemoryEvent.toNat_value_ofBytes false a hle).symm

/-- A write is accounted for by the bytes that it stores. -/
theorem replays_write (h : m.table.WellFormed) {bs : List UInt8} (hn : bs.length ∈ MemoryEvent.sizes)
    (hwrite : outcome (writeBytes a (packed bs)) m = (.ok (), m')) :
    Replays [.ofBytes true a bs] m m' := by
  have hle := MemoryEvent.le_of_mem_sizes hn
  have hsize := MemoryEvent.toNat_size_ofBytes true a hle
  have hvalue := MemoryEvent.toNat_value_ofBytes true a hle
  refine ⟨m', ?_, by rw [hsize]; exact hn, fun hread => (by cases hread), rfl⟩
  have hreplay : (MemoryEvent.ofBytes true a bs).replay = poke a (packed bs) := by
    show poke a (packed (LittleEndian.bytes _ _)) = _
    rw [hsize, hvalue, LittleEndian.bytes_value]
  rw [hreplay]
  exact store_of_enforced h hwrite

/-! ### Runs of bytes -/

/-- **Reads in pieces.** -/
theorem replays_readPieces (h : m.table.WellFormed) {bs : List UInt8}
    (hread : m.readBytes a bs.length = .ok (packed bs)) :
    Replays (MemoryEvent.pieces false a bs) m m := by
  refine MemoryEvent.pieces_induction (motive := fun a bs es => m.readBytes a bs.length = .ok (packed bs) →
    Replays es m m) (fun _ _ => rfl) (fun a xs ys es hsize ih hread => ?_) a bs hread
  rw [readBytes, List.length_append] at hread
  obtain ⟨xs', ys', hbytes, hxs, hfront, hrest⟩ := load_append h hread
  rw [byteList_packed] at hbytes
  obtain ⟨hfirst, hlast⟩ := List.append_inj hbytes hxs.symm
  have hpiece := replays_read h (hsize ▸ MemoryEvent.pieceSize_mem _) hfront
  rw [← hfirst] at hpiece
  have hys : ys' = packed ys := byteList_injective (by rw [byteList_packed, hlast])
  exact hpiece.append (ih (hys ▸ hrest))

/-- **Writes in pieces.** -/
theorem replays_writePieces (h : m.table.WellFormed) {bs : List UInt8}
    (hwrite : outcome (writeBytes a (packed bs)) m = (.ok (), m')) :
    Replays (MemoryEvent.pieces true a bs) m m' := by
  refine MemoryEvent.pieces_induction (motive := fun a bs es => ∀ m, m.table.WellFormed →
    outcome (writeBytes a (packed bs)) m = (.ok (), m') → Replays es m m')
    (fun a m h hwrite => ?_) (fun a xs ys es hsize ih m h hwrite => ?_) a bs m h hwrite
  · -- nothing is written
    obtain ⟨-, hwf, hwindow, hsegments, hview⟩ := (store_eq_ok_iff h).mp hwrite
    rw [byteList_packed, overlay_nil] at hview
    exact (ext_view h hwf hwindow hsegments hview).symm
  · obtain ⟨m₁, hfront, hrest⟩ := store_append h hwrite
    have hwf₁ := ((store_eq_ok_iff h).mp hfront).2.1
    have hpiece := replays_write h (hsize ▸ MemoryEvent.pieceSize_mem _) hfront
    exact hpiece.append (ih m₁ hwf₁ hrest)

end Memory

/-! ### Memories under observation -/

namespace Watched

open MemoryEvent (ofBytes)

/-- The accesses that were kept lead from `m₀` to the memory that is watched. -/
structure Logs (m₀ : Memory) (w : Watched .whole) : Prop where
  wellFormed : w.memory.table.WellFormed
  replays : Memory.Replays w.events.toList m₀ w.memory

/-- What is kept of an access accounts for what it does, if it succeeds. Otherwise it does nothing. -/
structure Accounts {α : Type} (act : MemoryM α) (event : α → List MemoryEvent) : Prop where
  ok : ∀ m v m', m.table.WellFormed → outcome act m = (.ok v, m') →
    m'.table.WellFormed ∧ Memory.Replays (event v) m m'
  error : ∀ m e m', outcome act m = (.error e, m') → m' = m

/-- An access that accounts for its events is logged. -/
theorem alike_forward_logs {α : Type} {act : MemoryM α} {event : α → List MemoryEvent} (m₀ : Memory)
    (h : Accounts act event) :
    Alike (fun b c => b = c ∧ Logs m₀ b) (forward act event) (forward act event) := by
  rintro w _ ⟨rfl, hw⟩
  refine ⟨rfl, rfl, ?_⟩
  rw [outcome_forward]
  cases hact : outcome act w.memory with
  | mk result m' =>
    cases result with
    | error e =>
      obtain rfl := h.error _ _ _ hact
      exact ⟨hw.wellFormed, hw.replays⟩
    | ok v =>
      obtain ⟨hwf, hreplays⟩ := h.ok _ _ _ hw.wellFormed hact
      refine ⟨hwf, ?_⟩
      rw [Array.toList_append]
      exact hw.replays.append hreplays

/-- Questions change nothing. -/
theorem accounts_ask {α : Type} {f : Memory → Except MemoryError α} {event : α → List MemoryEvent}
    (h : ∀ m v, m.table.WellFormed → f m = .ok v → Memory.Replays (event v) m m) :
    Accounts (Memory.ask f) event where
  ok m v m' hm hask := by
    obtain ⟨hv, rfl⟩ := Prod.mk.inj hask
    exact ⟨hm, h m v hm hv⟩
  error m e m' hask := (Prod.mk.inj hask).2.symm

/-- A write accounts for its events if they replay it. -/
theorem accounts_writeBytes {a : UInt64} {data : ByteArray} {events : List MemoryEvent}
    (h : ∀ m m', m.table.WellFormed → outcome (Memory.writeBytes a data) m = (.ok (), m') →
      Memory.Replays events m m') :
    Accounts (Memory.writeBytes a data) fun _ => events where
  ok m v m' hm hwrite := by
    have hwf := Memory.wellFormed_store hm true a data
    have hleft : (outcome (Memory.store true a data) m).2 = m' := congrArg Prod.snd hwrite
    exact ⟨hleft ▸ hwf, h m m' hm hwrite⟩
  error m e m' hwrite := by
    have hleft : (outcome (Memory.store true a data) m).2 = m' := congrArg Prod.snd hwrite
    exact hleft.symm.trans (Memory.reverts_store true a data m e (congrArg Prod.fst hwrite))

/-- The size of a number is one of those of accesses. -/
theorem bytes_mem_sizes (w : Width) : w.bytes ∈ MemoryEvent.sizes := by
  cases w <;> decide

/-- An access of a number is an access of its bytes. -/
theorem ofBytes_eq {write : Bool} {a : UInt64} {bs : List UInt8} {n : Nat} {value : BitVec 128}
    (hlength : bs.length = n) (hvalue : LittleEndian.value bs = value.toNat) :
    ofBytes write a bs = ⟨a, UInt8.ofNat n, write, value⟩ := by
  rw [ofBytes, hlength, hvalue, BitVec.ofNat_toNat]
  rfl

/-- A number that was read is one event, which replays. -/
theorem replays_readNumber {m : Memory} {a : UInt64} {n : Nat} {bs : ByteArray} {value : BitVec 128}
    (hm : m.table.WellFormed) (hn : n ∈ MemoryEvent.sizes) (hread : m.readBytes a n = .ok bs)
    (hvalue : littleEndian bs = value.toNat) :
    Memory.Replays [⟨a, UInt8.ofNat n, false, value⟩] m m := by
  have hreplays := Memory.replays_read hm hn hread
  have hlength := Memory.length_of_load hm hread
  rwa [ofBytes_eq hlength hvalue] at hreplays

/-- A number that was written is one event, which replays. -/
theorem replays_writeNumber {m m' : Memory} {a : UInt64} {n v : Nat} {value : BitVec 128}
    (hm : m.table.WellFormed) (hn : n ∈ MemoryEvent.sizes) (hvalue : v % 256 ^ n = value.toNat)
    (hwrite : outcome (Memory.writeBytes a (packed (LittleEndian.bytes n v))) m = (.ok (), m')) :
    Memory.Replays [⟨a, UInt8.ofNat n, true, value⟩] m m' := by
  have hlength := LittleEndian.length_bytes n v
  have hreplays := Memory.replays_write hm (hlength.symm ▸ hn) hwrite
  rwa [ofBytes_eq hlength ((LittleEndian.value_bytes n v).trans hvalue)] at hreplays

/-- A word as a number of 128 bits. -/
theorem toNat_setWidth (v : UInt64) : (v.toBitVec.setWidth 128).toNat = v.toNat := by
  rw [BitVec.toNat_setWidth, UInt64.toNat_toBitVec]
  exact Nat.mod_eq_of_lt (Nat.lt_trans v.toNat_lt (by decide))

/-- **Accounts.** Whatever accesses are made to it, those that were kept lead to the memory. -/
theorem busCongruence_logs (m₀ : Memory) : Bus.Congruence fun b c => b = c ∧ Logs m₀ b where
  readWord w a := alike_forward_logs m₀ <| accounts_ask fun m v hm hread => by
    obtain ⟨bs, hbs, hv⟩ := ((Memory.readsNumber_readWord hm w a).ok_iff v).mp hread
    exact replays_readNumber hm (bytes_mem_sizes w) hbs (hv.symm.trans (toNat_setWidth v).symm)
  readXmm a := alike_forward_logs m₀ <| accounts_ask fun m v hm hread => by
    obtain ⟨bs, hbs, hv⟩ := ((Memory.readsNumber_readXmm hm a).ok_iff v).mp hread
    exact replays_readNumber hm (by decide) hbs hv.symm
  writeWord w a v := alike_forward_logs m₀ <| accounts_writeBytes fun m m' hm hwrite => by
    refine replays_writeNumber hm (bytes_mem_sizes w) ?_ hwrite
    rw [toNat_setWidth, w.toNat_truncate, Width.toNat, w.modulus_eq]
  writeXmm a v := alike_forward_logs m₀ <| accounts_writeBytes fun m m' hm hwrite => by
    refine replays_writeNumber hm (by decide) ?_ hwrite
    exact Nat.mod_eq_of_lt (Nat.lt_of_lt_of_le v.isLt (by decide))
  fetch a n := alike_forward_logs m₀ <| accounts_ask fun m v hm hfetch => rfl
  readBytes a n := alike_forward_logs m₀ <| accounts_ask fun m bs hm hread => by
    refine Memory.replays_readPieces hm ?_
    rw [Memory.length_of_load hm hread]
    exact hread
  writeBytes a data := alike_forward_logs m₀ <| accounts_writeBytes fun m m' hm hwrite =>
    Memory.replays_writePieces hm hwrite

end Watched

/-- **Batches under observation.** The accesses of a batch lead from the memory that it begins with to the
    one that it leaves, whether it ends with a fault or not. -/
theorem replays_watching (table : IntrinsicTable) (n : Nat) {m : Machine Memory}
    (h : m.bus.table.WellFormed) :
    Memory.Replays ((watching .whole (runBatch table n)).run m).1.2 m.bus
      ((runBatch table n).run m).2.bus := by
  obtain ⟨s, b⟩ := m
  have hrel : Machine.Related (· = ·) (fun c d => c = d ∧ Watched.Logs b c)
      (⟨s, ⟨b, #[]⟩⟩ : Machine (Watched .whole)) ⟨s, ⟨b, #[]⟩⟩ := ⟨rfl, rfl, h, rfl⟩
  obtain ⟨-, -, -, hlogs⟩ := runBatch_related ⟨Cpu.congruence_eq, Watched.busCongruence_logs b⟩
    (fun a _ _ hst => congrArg (·.setRip a) hst) table n hrel
  obtain ⟨-, -, hbus⟩ := watching_related table n (Recorder.same_refl (⟨s, b⟩ : Machine Memory))
  have hleft : ((watching .whole (runBatch table n)).run ⟨s, b⟩).2.bus =
      ((runBatch table n).run ⟨s, b⟩).2.bus := hbus
  rw [← hleft]
  exact hlogs.replays

/-! ### Recorded runs -/

section
variable (table : IntrinsicTable) (index : UInt64) (n : Nat) {m : Machine Memory}

/-- **Runs.** The accesses of the entries of a run lead from the memory that it begins with to the one that
    it leaves. -/
theorem replays_executionLog (h : m.bus.table.WellFormed) :
    Memory.Replays ((executionLog table index n m).flatMap StepLog.events) m.bus
      ((runBatch table n).run m).2.bus := by
  induction n generalizing index m with
  | zero => rfl
  | succ n ih =>
    cases hinstruction : m.bus.instructionAt table m.cpu.rip with
    | error f =>
      rw [executionLog_of_fetch_error hinstruction, runBatch_of_fetch_error hinstruction n]
      rfl
    | ok i =>
      have hone := replays_watching table 1 h
      rw [executionLog, Machine.stepLog?_of_ok hinstruction, Option.toList_some,
        List.singleton_append, List.flatMap_cons]
      by_cases hcompleted : ((runBatch table 1).run m).1.exit = .completed
      · have hwf : (m.after table 1).bus.table.WellFormed := (protects_runBatch table 1 h).wellFormed
        rw [if_pos hcompleted, runBatch_succ_of_completed hcompleted n]
        exact hone.append (ih (index + 1) hwf)
      · rw [if_neg hcompleted, runBatch_succ_of_stopped hcompleted n, List.flatMap_nil, List.append_nil]
        exact hone

/-- What is recorded of a run can be read. -/
theorem canonical_executionLog (h : m.bus.table.WellFormed) :
    ∀ r ∈ (executionLog table index n m).flatMap StepLog.records, r.Canonical := by
  intro r hr
  obtain ⟨l, hl, hrecord⟩ := List.mem_flatMap.mp hr
  obtain rfl | hevent := List.mem_cons.mp hrecord
  · obtain ⟨k, hk⟩ := List.getElem?_of_mem hl
    obtain ⟨i, -, rfl⟩ := Machine.stepLog?_eq_some_iff.mp (getElem?_executionLog hk).2
    exact fun hempty => i.operation.text_ne_empty (Option.some.inj hempty)
  · obtain ⟨e, he, rfl⟩ := List.mem_map.mp hevent
    exact (replays_executionLog table index n h).size_mem (List.mem_flatMap.mpr ⟨l, hl, he⟩)

end

/-- The access of a record, if it is one of an access. -/
def Record.event? : Record → Option MemoryEvent
  | memoryEvent e => some e
  | _ => none

/-- The events of a log are in its records. -/
theorem StepLog.filterMap_event?_records (logs : List StepLog) :
    (logs.flatMap StepLog.records).filterMap Record.event? = logs.flatMap StepLog.events := by
  have hevents : ∀ es : List MemoryEvent, (es.map Record.memoryEvent).filterMap Record.event? = es := by
    intro es
    rw [List.filterMap_map]
    exact List.filterMap_some
  induction logs with
  | nil => rfl
  | cons l logs ih =>
    rw [List.flatMap_cons, List.filterMap_append, ih, records,
      List.filterMap_cons_none rfl, hevents, List.flatMap_cons]

/-- **Memory logs.** What a recorded run appends to a trace reads as records, whose accesses account for the
    memory: replayed in order on the memory that the run began with, they lead to exactly the one that it
    leaves; and each read among them finds its value at its address in the memory to which the accesses
    before it lead.  So it is for every budget and however the run ends, be it with a fault inside of an
    instruction. -/
theorem recorded_accesses_replay (table : IntrinsicTable) (n : Nat) (m : Machine Memory)
    (recorder : Recorder) (h : m.bus.Reachable) :
    ∃ (s' : Recording) (bs : List UInt8) (records : List Record),
      outcome (Recorder.run table n) ⟨m, recorder⟩ = (.ok ((runBatch table n).run m).1, s') ∧
      s'.machine.bus = ((runBatch table n).run m).2.bus ∧
      byteList s'.recorder.writer.output = byteList recorder.writer.output ++ bs ∧
      readTrace 1 bs = (records.map .ok, []) ∧
      outcome (Memory.replay (records.filterMap Record.event?)) m.bus = (.ok (), s'.machine.bus) ∧
      ∀ before e later, records.filterMap Record.event? = before ++ e :: later → e.write = false →
        ∃ b, outcome (Memory.replay before) m.bus = (.ok (), b) ∧ e.HoldsIn b := by
  obtain ⟨s', hrun, hsame, -, happends⟩ :=
    Recorder.exists_run table (s := ⟨m, recorder⟩) (Recorder.same_refl m) n
  have hcanonical := canonical_executionLog table recorder.steps n h.wellFormed
  have hreplays := replays_executionLog table recorder.steps n h.wellFormed
  -- the records read back are those logged, and the events are replayed in that order
  obtain ⟨bs, hbs, hyields⟩ := happends.yields hcanonical
  refine ⟨s', bs, (executionLog table recorder.steps n m).flatMap StepLog.records, hrun, hsame.2, hbs,
    ?_, ?_, ?_⟩
  · exact hyields.readTrace_eq Nat.one_ne_zero
  · rw [StepLog.filterMap_event?_records, hsame.2]
    exact hreplays.outcome_replay
  · intro before e later hevents hread
    rw [StepLog.filterMap_event?_records] at hevents
    rw [hevents] at hreplays
    exact hreplays.exists_holdsIn hread

/-- A string instruction that is to store four bytes where two are mapped. -/
def overrunning : Machine Memory where
  cpu := (((Cpu.initial.setRip 0x1000).setGpr .rdi 0x2000).setGpr .rcx 4).setGpr .rax 7
  bus := (Memory.empty {}).afterCalls
    [.map ⟨0x1000, 0x1002, .readExecute, 0, "code"⟩ (packed [0xf3, 0xaa]),
      .map ⟨0x2000, 0x2002, .readWrite, 0, "data"⟩ (packed [1, 2])]

/-- The accesses before the fault account for the two bytes that were stored. -/
theorem recorded_accesses_replay_overrunning :
    ((runBatch ⟨[]⟩ 1).run overrunning).1 = ⟨0, .fault (.memory (.unmapped 0x2002 1))⟩ ∧
      ∃ (s' : Recording) (bs : List UInt8) (records : List Record),
        outcome (Recorder.run ⟨[]⟩ 1) ⟨overrunning, .empty⟩ =
            (.ok ⟨0, .fault (.memory (.unmapped 0x2002 1))⟩, s') ∧
          readTrace 1 bs = (records.map .ok, []) ∧
          outcome (Memory.replay (records.filterMap Record.event?)) overrunning.bus =
            (.ok (), s'.machine.bus) ∧
          s'.machine.bus.view? 0x2000 = some (7, .readWrite) ∧
          s'.machine.bus.view? 0x2001 = some (7, .readWrite) := by
  have h : overrunning.bus.Reachable := ⟨_, _, rfl⟩
  have hbatch : ((runBatch ⟨[]⟩ 1).run overrunning).1 =
      ⟨0, .fault (.memory (.unmapped 0x2002 1))⟩ := by decide +kernel
  have hbytes : ((runBatch ⟨[]⟩ 1).run overrunning).2.bus.view? 0x2000 = some (7, .readWrite) ∧
      ((runBatch ⟨[]⟩ 1).run overrunning).2.bus.view? 0x2001 = some (7, .readWrite) := by
    decide +kernel
  obtain ⟨s', bs, records, hrun, hbus, -, hread, hreplay, -⟩ :=
    recorded_accesses_replay ⟨[]⟩ 1 overrunning .empty h
  rw [hbatch] at hrun
  exact ⟨hbatch, s', bs, records, hrun, hread, hreplay, hbus ▸ hbytes.1, hbus ▸ hbytes.2⟩

end Amd64
