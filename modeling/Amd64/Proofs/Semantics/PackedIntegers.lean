import Amd64.Decoder.Basic
import Amd64.Proofs.Machine.Binding
import Amd64.Proofs.Semantics.VectorWidths
import Amd64.Proofs.Vector.Lanes

namespace Amd64

/-!
# Packed integers in vector registers

* `Exec.outcome_replaceXmm`        — a register is replaced by a function of what it stood for, whichever way
  that was stored;
* `Instruction.lanewise`           — what instructions on packed integers make of every lane.
-/

section
variable {σ : Type}

namespace Exec

variable [Bus σ]

/-! ### Operands -/

/-- A register as an operand is looked at in its 128 bits. -/
theorem outcome_readXmm_vec (m : Machine σ) (v : VecReg) :
    outcome (Location.vec v).readXmm m = (.ok (m.xmm v.index), m.store v.index) := rfl

/-- What registers stand for is not changed where they are read. -/
theorem keeps_vectors_readXmm (l : Location) : Keeps Machine.vectors (l.readXmm : Exec σ (BitVec 128)) := by
  cases l with
  | vec v => exact fun m => m.vectors_store v.index
  | mem a =>
    exact keeps_cpu.bind fun _ m => congrArg (fun (s : Cpu) v => (s.vec v).contents) (keeps_access _ m)
  | reg r => exact keeps_invalidOpcode
  | imm n => exact keeps_invalidOpcode

/-- Reading an operand leaves the low halves of all registers. -/
theorem xmm_of_readXmm {l : Location} {b : BitVec 128} {m m₁ : Machine σ}
    (hread : outcome l.readXmm m = (.ok b, m₁)) (v : Fin 16) : m₁.xmm v = m.xmm v := by
  have hkept := keeps_vectors_readXmm l m
  rw [hread] at hkept
  exact congrArg (fun vectors : Fin 16 → BitVec 512 => (vectors v).extractLsb' 0 128) hkept

/-- A register is replaced by a function of what it stood for. -/
theorem outcome_replaceXmm (m : Machine σ) (d : VecReg) (f : BitVec 128 → BitVec 128) :
    outcome (do
        let v ← (Location.vec d).readXmm
        (Location.vec d).writeXmm (f v)) m = (.ok (), m.setXmm d.index (f (m.xmm d.index))) := by
  rw [outcome_bind, outcome_readXmm_vec, ← m.setXmm_store, ← Machine.modifyVec_setXmm]
  rfl

/-- An operation on two vectors replaces the low half of its destination. -/
theorem outcome_binary (f : BitVec 128 → BitVec 128 → BitVec 128) (d : VecReg) {src : Location}
    {b : BitVec 128} {m m₁ : Machine σ} (hread : outcome src.readXmm m = (.ok b, m₁)) :
    outcome (binary f (.vec d) src) m = (.ok (), m₁.setXmm d.index (f (m.xmm d.index) b)) := by
  rw [binary, outcome_bind, hread, ← xmm_of_readXmm hread]
  exact outcome_replaceXmm m₁ d fun a => f a b

/-- A count that is not an immediate value is the low 32 bits of the source. -/
theorem outcome_shiftLanes (op : LaneShift) (w : Width) (d : VecReg) {src : Location} {b : BitVec 128}
    {m m₁ : Machine σ} (hread : outcome src.readXmm m = (.ok b, m₁)) :
    outcome (shiftLanes op w (.vec d) src) m =
      (.ok (), m₁.setXmm d.index (op.apply w (b.toNat % 2 ^ 32) (m.xmm d.index))) := by
  have hcount : (b.setWidth 32).toNat = b.toNat % 2 ^ 32 := BitVec.toNat_setWidth ..
  have hshift := outcome_replaceXmm m₁ d (op.apply w (b.setWidth 32).toNat)
  rw [xmm_of_readXmm hread, hcount] at hshift
  cases src with
  | imm _ | reg _ => exact nomatch (congrArg Prod.fst hread : Except.error _ = Except.ok b)
  | vec _ | mem _ =>
    show outcome (Location.readXmm _ >>= _) m = _
    rw [outcome_bind, hread]
    exact hshift

/-- A shift by a number replaces the low half. -/
theorem outcome_shiftLanes_imm (op : LaneShift) (w : Width) (d : VecReg) (n : UInt64) (m : Machine σ) :
    outcome (shiftLanes op w (.vec d) (.imm n)) m =
      (.ok (), m.setXmm d.index (op.apply w n.toNat (m.xmm d.index))) :=
  outcome_replaceXmm m d (op.apply w n.toNat)

/-- A shift of bytes replaces the low half. -/
theorem outcome_shiftBytes (op : LaneShift) (d : VecReg) (n : UInt64) (m : Machine σ) :
    outcome (shiftBytes op (.vec d) (.imm n)) m =
      (.ok (), m.setXmm d.index (op.applyBytes n.toNat (m.xmm d.index))) :=
  outcome_replaceXmm m d (op.applyBytes n.toNat)

/-- The sign bits of the operand go to a general-purpose register. -/
theorem outcome_moveMask (r : Reg) {src : Location} {b : BitVec 128} {m m₁ : Machine σ}
    (hread : outcome src.readXmm m = (.ok b, m₁)) :
    outcome (sse .moveMask (.reg r) src) m = (.ok (), ⟨m₁.cpu.writeReg r (byteSigns b), m₁.bus⟩) := by
  show outcome (src.readXmm >>= fun v => (Location.reg r).write .w64 (byteSigns v)) m = _
  rw [outcome_bind, hread]
  rfl

/-! ### Halves -/

/-- A wide register is looked at in its two halves. -/
theorem outcome_readWide_vec (m : Machine σ) (v : VecReg) :
    outcome (readWide (.vec v) .ymm) m =
      (.ok ⟨m.xmm v.index, m.upperXmm v.index⟩, m.store v.index) := by
  have hhalf : ∀ k, k + 128 ≤ 256 →
      ((m.vectors v.index).extractLsb' 0 256).extractLsb' k 128 = (m.vectors v.index).extractLsb' k 128 := by
    intro k hk
    ext j hj
    simp [show k + j < 256 by omega]
  rw [Machine.xmm, Machine.upperXmm, ← hhalf 0 (by decide), ← hhalf 128 (by decide)]
  rfl

omit [Bus σ] in
/-- An access does not look at vector registers. -/
theorem outcome_access_store {α : Type} (act : BusM σ α) (m : Machine σ) (v : Fin 16) :
    outcome (access act) (m.store v) = ((outcome (access act) m).1, (outcome (access act) m).2.store v) := by
  have hbus : (m.store v).bus = m.bus := rfl
  rw [outcome_access, outcome_access, hbus]
  rcases outcome act m.bus with ⟨_ | _, bus⟩ <;> rfl

/-- It does not matter to an operand which numbers were stored. -/
theorem outcome_readWide_store {l : Location} {b : WideValue} {m m₁ : Machine σ} (v : Fin 16)
    (hread : outcome (readWide l .ymm) m = (.ok b, m₁)) :
    outcome (readWide l .ymm) (m.store v) = (.ok b, m₁.store v) := by
  cases l with
  | vec u =>
    rw [outcome_readWide_vec] at hread ⊢
    cases hread
    rw [Machine.store_store, Machine.xmm, Machine.upperXmm, Machine.vectors_store]
    rfl
  | mem a =>
    have haddress : a.effective (m.store v).cpu = a.effective m.cpu := rfl
    -- neither the address nor the bytes depend on the vector registers
    simp only [readWide, outcome_bind, outcome_cpu, haddress, outcome_access_store] at hread ⊢
    generalize outcome (access (Bus.readXmm (a.effective m.cpu))) m = o at hread ⊢
    obtain ⟨e | low, m'⟩ := o
    · cases hread
    · simp only [outcome_access_store] at hread ⊢
      generalize outcome (access (Bus.readXmm (a.effective m.cpu + 16))) m' = o at hread ⊢
      obtain ⟨e | high, m''⟩ := o
      · cases hread
      · cases hread
        rfl
  | reg _ | imm _ => exact nomatch (congrArg Prod.fst hread : Except.error _ = Except.ok b)

/-- The sum of 256 bits is made of the sums of the halves. -/
theorem outcome_vexBinary_ymm (op : VexOp) (d l : VecReg) {rhs : Location} {b : WideValue} {m m₁ : Machine σ}
    (hread : outcome (readWide rhs .ymm) m = (.ok b, m₁)) :
    outcome (vexBinary op .ymm (.vec d) (.vec l) rhs) m =
      (.ok (), (m₁.store l.index).setYmm d.index
        (op.apply (m.upperXmm l.index) b.high ++ op.apply (m.xmm l.index) b.low)) := by
  rw [vexBinary, outcome_bind, outcome_readWide_vec]
  show outcome (readWide rhs .ymm >>= _) (m.store l.index) = _
  rw [outcome_bind, outcome_readWide_store l.index hread]
  rfl

end Exec

/-! ### Instructions -/

/-- What instructions on packed integers do. A source is a register or memory; where it can be read, the lanes
    of the destination become what the arithmetic of the lane width makes of the lanes at the same place. -/
structure Instruction.Lanewise [Bus σ] (i : Instruction) (m : Machine σ) : Prop where
  /-- A source that is a register gives its low 128 bits. -/
  source : ∀ v : VecReg, ∃ m₁, m₁.vectors = m.vectors ∧
    outcome ((Operand.vec v).bind i.next).readXmm m = (.ok (m.xmm v.index), m₁)
  /-- Sums, differences and comparisons. -/
  lanes : ∀ op w d src b m₁, i.operation = .sse (.lanes op w) (.vec d) src →
    outcome (src.bind i.next).readXmm m = (.ok b, m₁) →
    ∃ x, outcome (i.execute i.binding) m = (.ok (.next i.next), m₁.setXmm d.index x) ∧
      ∀ k < 128 / w.bits, laneBits w x k = op.onLane (laneBits w (m.xmm d.index) k) (laneBits w b k)
  /-- Shifts by an immediate count. -/
  shiftBy : ∀ op w d n, i.operation = .sse (.shiftLanes op w) (.vec d) (.imm n) →
    ∃ x, outcome (i.execute i.binding) m = (.ok (.next i.next), m.setXmm d.index x) ∧
      ∀ k < 128 / w.bits, laneBits w x k = op.onLane n.toNat (laneBits w (m.xmm d.index) k)
  /-- Shifts by the low 32 bits of a source, which are the count of all lanes. -/
  shiftByLow : ∀ op w d src b m₁, i.operation = .sse (.shiftLanes op w) (.vec d) src →
    outcome (src.bind i.next).readXmm m = (.ok b, m₁) →
    ∃ x, outcome (i.execute i.binding) m = (.ok (.next i.next), m₁.setXmm d.index x) ∧
      ∀ k < 128 / w.bits,
        laneBits w x k = op.onLane (b.toNat % 2 ^ 32) (laneBits w (m.xmm d.index) k)
  /-- Shifts of the whole vector by bytes. -/
  shiftBytes : ∀ op d n, i.operation = .sse (.shiftBytes op) (.vec d) (.imm n) →
    ∃ x, outcome (i.execute i.binding) m = (.ok (.next i.next), m.setXmm d.index x) ∧
      (op = .left → x.toNat = (m.xmm d.index).toNat * 256 ^ n.toNat % 2 ^ 128) ∧
      (op = .right → x.toNat = (m.xmm d.index).toNat / 256 ^ n.toNat) ∧
      (15 < n.toNat → x = 0)
  /-- The top bits of all bytes. -/
  moveMask : ∀ r src b m₁, i.operation = .sse .moveMask (.reg r) src →
    outcome (src.bind i.next).readXmm m = (.ok b, m₁) →
    ∃ x : UInt64, outcome (i.execute i.binding) m =
        (.ok (.next i.next), ⟨m₁.cpu.writeReg r x, m₁.bus⟩) ∧
      ∀ k, x.toBitVec.getLsbD k = (laneBits .w8 b k).msb
  /-- A source of 256 bits that is a register gives the low halves of its contents. -/
  wideSource : ∀ v : VecReg, ∃ m₁, m₁.vectors = m.vectors ∧
    outcome (Exec.readWide ((Operand.vec v).bind i.next) .ymm) m =
      (.ok ⟨m.xmm v.index, m.upperXmm v.index⟩, m₁)
  /-- Sums of 256 bits are sums of both halves, as of 128 bits. -/
  halves : ∀ d l rhs b m₁, i.operation = .vexBinary .vpaddq ⟨d, .ymm⟩ l rhs →
    outcome (Exec.readWide (rhs.bind i.next) .ymm) m = (.ok b, m₁) →
    outcome (i.execute i.binding) m =
      (.ok (.next i.next), (m₁.store l.index).setYmm d
        (LaneOp.add.apply .w64 (m.upperXmm l.index) b.high ++ LaneOp.add.apply .w64 (m.xmm l.index) b.low))

namespace Instruction

variable [Bus σ] {i : Instruction} {m m₁ : Machine σ}

/-- An instruction that does one piece of work goes on behind itself. -/
theorem outcome_execute_of_work {work : Exec σ Unit}
    (h : (i.execute i.binding : Exec σ Outcome) = (do work; return .next i.next))
    (hwork : outcome work m = (.ok (), m₁)) :
    outcome (i.execute i.binding) m = (.ok (.next i.next), m₁) := by
  rw [h, outcome_bind, hwork]
  rfl

/-- Such an instruction does its work and goes on to the next. -/
theorem outcome_execute_sse {op : SseOp} {dst src : Operand} (h : i.operation = .sse op dst src)
    (hwork : outcome (Exec.sse op (dst.bind i.next) (src.bind i.next)) m = (.ok (), m₁)) :
    outcome (i.execute i.binding) m = (.ok (.next i.next), m₁) := by
  have hdst : i.binding.get 0 = dst.bind i.next := get_binding (by rw [h]; rfl)
  have hsrc : i.binding.get 1 = src.bind i.next := get_binding (by rw [h]; rfl)
  refine outcome_execute_of_work ?_ hwork
  simp only [execute, h, hdst, hsrc]

/-- **Packed integers.** Every lane of the result is made of the lanes at its own place, by the arithmetic of
    its width, so no lane depends on another. -/
theorem lanewise (i : Instruction) (m : Machine σ) : i.Lanewise m where
  source v := ⟨m.store v.index, m.vectors_store v.index, Exec.outcome_readXmm_vec m v⟩
  lanes op w d src b m₁ h hread := by
    have hwork := Exec.outcome_binary (op.apply w) d hread
    exact ⟨_, outcome_execute_sse h hwork, fun k hk => op.laneBits_apply w _ b hk⟩
  shiftBy op w d n h := by
    have hwork := Exec.outcome_shiftLanes_imm op w d n m
    exact ⟨_, outcome_execute_sse h hwork, fun k hk => op.laneBits_apply w n.toNat _ hk⟩
  -- a count from a register is its low double word, however large
  shiftByLow op w d src b m₁ h hread := by
    have hwork := Exec.outcome_shiftLanes op w d hread
    exact ⟨_, outcome_execute_sse h hwork, fun k hk => op.laneBits_apply w (b.toNat % 2 ^ 32) _ hk⟩
  shiftBytes op d n h := by
    have hwork := Exec.outcome_shiftBytes op d n m
    refine ⟨_, outcome_execute_sse h hwork, ?_, ?_, fun hn => op.applyBytes_of_lt hn _⟩
    · rintro rfl
      exact LaneShift.toNat_applyBytes_left ..
    · rintro rfl
      exact LaneShift.toNat_applyBytes_right ..
  moveMask r src b m₁ h hread :=
    ⟨byteSigns b, outcome_execute_sse h (Exec.outcome_moveMask r hread), getLsbD_byteSigns b⟩
  wideSource v := ⟨m.store v.index, m.vectors_store v.index, Exec.outcome_readWide_vec m v⟩
  halves d l rhs b m₁ h hread := by
    have hdst : i.binding.get 0 = .vec ⟨d, .ymm⟩ := get_binding (o := .vec ⟨d, .ymm⟩) (by rw [h]; rfl)
    have hlhs : i.binding.get 1 = .vec l := get_binding (o := .vec l) (by rw [h]; rfl)
    have hrhs : i.binding.get 2 = rhs.bind i.next := get_binding (by rw [h]; rfl)
    refine outcome_execute_of_work ?_ (Exec.outcome_vexBinary_ymm .vpaddq ⟨d, .ymm⟩ l hread)
    simp only [execute, h, hdst, hlhs, hrhs]

/-- `psraw xmm0, xmm1` with a count of 3 below bits that do not count: signed lanes are divided by 8. -/
theorem lanewise_signedByThree :
    let m : Machine Memory :=
      ⟨(Cpu.initial.setVec 0 (.ofBits 0x7fff8000)).setVec 1 (.ofBits 0x1000000000000000500000003),
        .empty ⟨0x10000, 0x20000⟩⟩
    let psraw : Instruction :=
      ⟨0x1000, .ofBytes [0x66, 0x0f, 0xe1, 0xc1],
        .sse (.shiftLanes .arithmetic .w16) (.vec ⟨0, .xmm⟩) (.vec ⟨1, .xmm⟩)⟩
    decode 0x1000 [0x66, 0x0f, 0xe1, 0xc1] = .ok psraw ∧
      ∃ (x : BitVec 128) (m₁ : Machine Memory),
        outcome (psraw.execute psraw.binding) m = (.ok (.next 0x1004), m₁.setXmm 0 x) ∧
        (laneBits .w16 x 0).toInt = -0x1000 ∧ (laneBits .w16 x 1).toInt = 0xfff := by
  intro m psraw
  have h : psraw.Lanewise m := lanewise psraw m
  obtain ⟨m₁, -, hread⟩ := h.source ⟨1, .xmm⟩
  obtain ⟨x, hx, hlanes⟩ := h.shiftByLow _ _ _ _ _ _ rfl hread
  refine ⟨by decide +kernel, x, m₁, hx, ?_, ?_⟩
  · rw [hlanes 0 (by decide)]
    decide +kernel
  · rw [hlanes 1 (by decide)]
    decide +kernel

end Instruction

end

end Amd64
