import Amd64.Decoder.Basic
import Amd64.Machine.Snapshot
import Amd64.Proofs.Machine.Vectors
import Amd64.Proofs.Memory.Halves
import Amd64.Proofs.Semantics.Faults
import Amd64.Proofs.Semantics.Precise.Vector
import Amd64.Semantics.Instruction

namespace Amd64

/-!
# Moves of 256 bits between registers and memory

* `Exec.outcome_loadYmm_of_ok`, `Exec.outcome_storeYmm` — the moves as reads and writes of both halves;
* `Machine.LoadsYmm`, `Machine.StoresYmm` — what a load and a store of 256 bits do;
* `Instruction.execute_ymmMove`           — the instructions do this, so a load is one access, and a store that
  fails at its upper half leaves the lower one behind.
-/

namespace Exec

variable {m : Machine Memory} (l : BoundAddress) (v : Fin 16)

/-- Both halves are read from memory. -/
theorem outcome_readWide_mem :
    outcome (readWide (.mem l) .ymm : Exec Memory WideValue) m =
      (((m.bus.readYmm (l.effective m.cpu)).mapError Fault.memory).map
        fun x => ⟨x.extractLsb' 0 128, x.extractLsb' 128 128⟩, m) := by
  have hlow : ∀ a, outcome (access (Bus.readXmm a)) m = ((m.bus.readXmm a).mapError Fault.memory, m) :=
    fun a => outcome_access_ask _ m
  simp only [readWide, outcome_bind, outcome_cpu, hlow, Memory.readYmm]
  cases m.bus.readXmm (l.effective m.cpu) with
  | error e => rfl
  | ok low =>
    cases hhigh : m.bus.readXmm (l.effective m.cpu + 16) with
    | error e =>
      simp only [Except.mapError, hlow, hhigh]
      rfl
    | ok high =>
      have hbelow : (high ++ low).extractLsb' 0 128 = low := BitVec.extractLsb'_append_eq_right
      have habove : (high ++ low).extractLsb' 128 128 = high := BitVec.extractLsb'_append_eq_left
      simp only [Except.mapError, hlow, hhigh]
      show (Except.ok (⟨low, high⟩ : WideValue), m) = (.ok ⟨(high ++ low).extractLsb' 0 128, _⟩, m)
      rw [hbelow]
      exact congrArg (fun high => (Except.ok (⟨low, high⟩ : WideValue), m)) habove.symm

/-- A load reads both halves before it changes the register. -/
theorem outcome_loadYmm_of_ok {x : BitVec 256} (hx : m.bus.readYmm (l.effective m.cpu) = .ok x) :
    outcome (vexMove (some .ymm) (.vec ⟨v, .ymm⟩) (.mem l) : Exec Memory Unit) m =
      (.ok (), ⟨m.cpu.setVec v (VectorReg.setYmm x), m.bus⟩) := by
  have hjoin : x.extractLsb' 128 128 ++ x.extractLsb' 0 128 = x :=
    (BitVec.extractLsb'_append_extractLsb'_eq_extractLsb' rfl).trans BitVec.extractLsb'_eq_self
  simp only [vexMove, outcome_bind, outcome_readWide_mem, hx]
  show (Except.ok (), (⟨m.cpu.setVec v (VectorReg.setYmm (x.extractLsb' 128 128 ++ x.extractLsb' 0 128)),
    m.bus⟩ : Machine Memory)) = _
  rw [hjoin]

/-- A load that cannot read all of its bytes faults and leaves the machine. -/
theorem outcome_loadYmm_of_error {e : MemoryError}
    (he : m.bus.readYmm (l.effective m.cpu) = .error e) :
    outcome (vexMove (some .ymm) (.vec ⟨v, .ymm⟩) (.mem l) : Exec Memory Unit) m =
      (.error (.memory e), m) := by
  simp only [vexMove, outcome_bind, outcome_readWide_mem, he]
  rfl

/-- A store takes both halves from the register before it writes one. -/
theorem outcome_storeYmm :
    outcome (vexMove (some .ymm) (.mem l) (.vec ⟨v, .ymm⟩) : Exec Memory Unit) m =
      outcome (access (Memory.writeYmm (l.effective m.cpu) (m.cpu.vec v).ymm.1))
        ⟨m.cpu.setVec v (m.cpu.vec v).materialize, m.bus⟩ := by
  simp only [vexMove, readWide, writeWide, outcome_bind, outcome_viewVec, outcome_pure, outcome_cpu]
  rw [Memory.writeYmm, outcome_access_bind, outcome_bind]
  -- the address does not depend on vector registers, so both halves go to the one that was computed first
  rfl

end Exec

/-! ### Loads and stores -/

namespace Machine

/-- What a load of 256 bits from `a` on into the vector register `v` does, in an instruction that is followed
    by one at `next`. -/
structure LoadsYmm (m : Machine Memory) (next : UInt64) (v : Fin 16) (a : UInt64)
    (result : Except Fault Outcome × Machine Memory) : Prop where
  /-- It succeeds if and only if each of 32 bytes may be read. -/
  isOk_iff : (∃ o, result.1 = .ok o) ↔
    ∀ x, a.toNat ≤ x → x < a.toNat + 32 → m.bus.Permits (·.allows .read) x
  next : ∀ o, result.1 = .ok o → o = .next next
  /-- The register holds these bytes then, and zeros above them.  Nothing else changes. -/
  loaded : ∀ o, result.1 = .ok o → ∃ x : BitVec 256,
    (LittleEndian.bytes 32 x.toNat).map some =
      (List.range' a.toNat 32).map (fun y => (m.bus.view? y).map Prod.fst) ∧
    result.2 = m.withVector v (x.setWidth 512)
  /-- A fault is one of memory, and changes nothing. -/
  refused : ∀ f, result.1 = .error f → f.IsMemory ∧ result.2 = m

/-- What a store of 256 bits from the vector register `v` to `a` does, in an instruction that is followed by
    one at `next`. -/
structure StoresYmm (m : Machine Memory) (next : UInt64) (v : Fin 16) (a : UInt64)
    (result : Except Fault Outcome × Machine Memory) : Prop where
  /-- It succeeds if and only if each of 32 bytes may be written. -/
  isOk_iff : (∃ o, result.1 = .ok o) ↔
    ∀ x, a.toNat ≤ x → x < a.toNat + 32 → m.bus.Permits (·.allows .write) x
  next : ∀ o, result.1 = .ok o → o = .next next
  /-- The bytes of the register are there then, and no other byte changes. -/
  stored : ∀ o, result.1 = .ok o → result.2.bus.view? =
    overlay m.bus.view? a.toNat (LittleEndian.bytes 32 ((m.vectors v).extractLsb' 0 256).toNat)
  /-- A fault is one of memory. -/
  fault : ∀ f, result.1 = .error f → f.IsMemory
  /-- It changes nothing in memory if the lower half may not be written. -/
  refused : ∀ f, result.1 = .error f →
    (¬ ∀ x, a.toNat ≤ x → x < a.toNat + 16 → m.bus.Permits (·.allows .write) x) → result.2.bus = m.bus
  /-- Otherwise the lower half is there after the fault, and no other byte changes. -/
  halfway : ∀ f, result.1 = .error f →
    (∀ x, a.toNat ≤ x → x < a.toNat + 16 → m.bus.Permits (·.allows .write) x) →
      result.2.bus.view? =
        overlay m.bus.view? a.toNat (LittleEndian.bytes 16 ((m.vectors v).extractLsb' 0 256).toNat)
  /-- The segments stay, whether it succeeds or not. -/
  segments : result.2.bus.segments = m.bus.segments ∧ result.2.bus.window = m.bus.window
  /-- So do the contents of the registers. -/
  registers : result.2.cpu.snapshot = m.cpu.snapshot

end Machine

namespace Instruction

variable {m : Machine Memory}

/-- A move is executed, and execution goes on behind it. -/
theorem outcome_execute_vexMove {i : Instruction} {aligned : Bool} {dst src : Operand}
    (hmove : i.operation = .vexMove aligned dst src) :
    outcome (i.execute i.binding) m =
      ((outcome (Exec.vexMove (dst.vecSize? <|> src.vecSize?) (dst.bind i.next) (src.bind i.next)) m).1.map
          fun _ => .next i.next,
        (outcome (Exec.vexMove (dst.vecSize? <|> src.vecSize?) (dst.bind i.next) (src.bind i.next)) m).2) := by
  obtain ⟨rip, encoding, operation⟩ := i
  obtain rfl : operation = .vexMove aligned dst src := hmove
  rw [← outcome_mapResult, map_eq_pure_bind]
  rfl

/-- **Loads.** The register changes after both halves were read. -/
theorem loadsYmm_execute (h : m.bus.table.WellFormed) {i : Instruction} {aligned : Bool} {v : Fin 16}
    {address : Address} (hload : i.operation = .vexMove aligned (.vec ⟨v, .ymm⟩) (.mem address)) :
    m.LoadsYmm i.next v ((address.bind i.next).effective m.cpu) (outcome (i.execute i.binding) m) := by
  have hread := Memory.readsYmm h ((address.bind i.next).effective m.cpu)
  rw [outcome_execute_vexMove hload]
  show m.LoadsYmm i.next v _
    ((outcome (Exec.vexMove (some .ymm) (.vec ⟨v, .ymm⟩) (.mem (address.bind i.next))) m).1.map _,
      (outcome (Exec.vexMove (some .ymm) (.vec ⟨v, .ymm⟩) (.mem (address.bind i.next))) m).2)
  -- the halves are read one after the other, so the load is whole or refused
  cases hx : m.bus.readYmm ((address.bind i.next).effective m.cpu) with
  | ok x =>
    rw [Exec.outcome_loadYmm_of_ok _ v hx]
    constructor
    case isOk_iff => exact ⟨fun _ => hread.isOk_iff.mp ⟨x, hx⟩, fun _ => ⟨_, rfl⟩⟩
    case next =>
      rintro _ ⟨⟩
      rfl
    case loaded => exact fun _ _ => ⟨x, hread.bytes x hx, rfl⟩
    case refused => exact nofun
  | error e =>
    rw [Exec.outcome_loadYmm_of_error _ v hx]
    constructor
    case isOk_iff =>
      refine ⟨nofun, fun hall => ?_⟩
      obtain ⟨x, hok⟩ := hread.isOk_iff.mpr hall
      rw [hx] at hok
      cases hok
    case next | loaded => exact nofun
    case refused =>
      rintro _ ⟨⟩
      exact ⟨trivial, rfl⟩

/-- **Stores.** Memory is what a write of both halves leaves. -/
theorem storesYmm_execute (h : m.bus.table.WellFormed) {i : Instruction} {aligned : Bool} {v : Fin 16}
    {address : Address} (hstore : i.operation = .vexMove aligned (.mem address) (.vec ⟨v, .ymm⟩)) :
    m.StoresYmm i.next v ((address.bind i.next).effective m.cpu) (outcome (i.execute i.binding) m) := by
  have hwrite := Memory.writesYmm h ((address.bind i.next).effective m.cpu) (m.cpu.vec v).ymm.1
  -- taking the halves may store a number that the register kept beside its bits, which no snapshot shows
  have hregisters : (m.cpu.setVec v (m.cpu.vec v).materialize).snapshot = m.cpu.snapshot :=
    Cpu.snapshot_setVec (VectorReg.contents_materialize _)
  rw [outcome_execute_vexMove hstore]
  show m.StoresYmm i.next v _
    ((outcome (Exec.vexMove (some .ymm) (.mem (address.bind i.next)) (.vec ⟨v, .ymm⟩)) m).1.map _,
      (outcome (Exec.vexMove (some .ymm) (.mem (address.bind i.next)) (.vec ⟨v, .ymm⟩)) m).2)
  rw [Exec.outcome_storeYmm, Exec.outcome_access]
  dsimp only
  generalize outcome (Memory.writeYmm ((address.bind i.next).effective m.cpu) (m.cpu.vec v).ymm.1)
    m.bus = result at hwrite ⊢
  obtain ⟨e | u, bus⟩ := result
  · have hfailed : (Except.error e : Except MemoryError Unit) ≠ .ok () := nofun
    constructor
    case isOk_iff => exact ⟨nofun, fun hall => absurd (hwrite.isOk_iff.mpr hall) hfailed⟩
    case next | stored => exact nofun
    case fault =>
      rintro _ ⟨⟩
      trivial
    case refused => exact fun _ _ hno => hwrite.refused hno
    case halfway => exact fun _ _ hlow => hwrite.halfway hfailed hlow
    case segments => exact hwrite.segments
    case registers => exact hregisters
  · constructor
    case isOk_iff => exact ⟨fun _ => hwrite.isOk_iff.mp rfl, fun _ => ⟨_, rfl⟩⟩
    case next =>
      rintro _ ⟨⟩
      rfl
    case stored => exact fun _ _ => hwrite.written rfl
    case fault | refused | halfway => exact nofun
    case segments => exact hwrite.segments
    case registers => exact hregisters

/-- **Moves of 256 bits.** On a machine with a reachable address space a load or a store of 256 bits succeeds if
    and only if each of the 32 bytes at its address may be read or written, and transfers these bytes then.  A
    load that faults changes nothing.  A store that faults changes no registers, and changes memory if and only
    if the fault is that of the upper half: the lower half is stored by then. -/
theorem execute_ymmMove (h : m.bus.Reachable) (i : Instruction) (aligned : Bool) (v : Fin 16)
    (address : Address) :
    (i.operation = .vexMove aligned (.vec ⟨v, .ymm⟩) (.mem address) →
      m.LoadsYmm i.next v ((address.bind i.next).effective m.cpu) (outcome (i.execute i.binding) m)) ∧
    (i.operation = .vexMove aligned (.mem address) (.vec ⟨v, .ymm⟩) →
      m.StoresYmm i.next v ((address.bind i.next).effective m.cpu) (outcome (i.execute i.binding) m)) :=
  ⟨loadsYmm_execute h.wellFormed, storesYmm_execute h.wellFormed⟩

/-- With sixteen bytes mapped at its address, `vmovdqu [rdi], ymm0` faults and leaves the lower half there. -/
theorem execute_ymmMove_halfMapped :
    let bus : Memory := (Memory.empty ⟨0x10000, 0x20000⟩).afterCalls
      [.map ⟨0x2000, 0x2010, .readWrite, 0, "half"⟩ ByteArray.empty]
    let m : Machine Memory :=
      ⟨(Cpu.initial.setGpr .rdi 0x2000).setVec 0 (VectorReg.ofBits (BitVec.allOnes 512)), bus⟩
    let store : Instruction := ⟨0x1000, .ofBytes [0xc5, 0xfe, 0x7f, 0x07],
      .vexMove false (.mem ⟨.register .rdi, none, .one, 0, none, false⟩) (.vec ⟨0, .ymm⟩)⟩
    decode 0x1000 [0xc5, 0xfe, 0x7f, 0x07] = .ok store ∧
      (outcome (store.execute store.binding) m).1 = .error (.memory (.unmapped 0x2010 16)) ∧
      m.bus.view? 0x200f = some (0, .readWrite) ∧
      (outcome (store.execute store.binding) m).2.bus.view? 0x200f = some (0xff, .readWrite) := by
  intro bus m store
  have h : bus.Reachable := ⟨_, _, rfl⟩
  have hfault : (outcome (store.execute store.binding) m).1 =
      .error (.memory (.unmapped 0x2010 16)) := by decide +kernel
  have haddress : ((Address.mk (.register .rdi) none .one 0 none false).bind store.next).effective m.cpu =
      0x2000 := by decide +kernel
  have hlow := (Memory.writesCells_store h.wellFormed true 0x2000
    (packed (List.replicate 16 0))).isOk_iff.mp (by decide +kernel)
  have hstore := (execute_ymmMove (m := m) h store false 0 _).2 rfl
  rw [haddress] at hstore
  refine ⟨by decide +kernel, hfault, by decide +kernel, ?_⟩
  rw [hstore.halfway _ hfault hlow]
  decide +kernel

end Instruction

end Amd64
