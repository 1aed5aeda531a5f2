import Amd64.Proofs.Decoder.AddressCode
import Amd64.Proofs.Machine.Binding
import Amd64.Proofs.Semantics.Footprint
import Amd64.Proofs.Simulation.Run

namespace Amd64

/-!
# Where instructions make accesses

* `Attempted`                  — a bus with the accesses that are made through it, successful or not;
* `Instruction.attempts`       — the accesses that the execution of an instruction makes;
* `Instruction.attempts_faithful` — it does the same on the bus itself;
* `Instruction.attempts_of_decode` — operands in memory are in the segment that the prefixes select. The
  stack and strings are in none, whatever the prefixes are.
-/

/-- A bus with the accesses that were made through it. -/
structure Attempted (σ : Type) where
  bus : σ
  attempts : List Attempt

namespace Attempted

variable {σ α : Type}

/-- Notes accesses that are passed on. -/
def note (l : List Attempt) (act : BusM σ α) : BusM (Attempted σ) α :=
  ExceptT.mk fun
    | ⟨bus, attempts⟩ =>
      match act.run.run bus with
      | (v, bus) => (v, ⟨bus, attempts ++ l⟩)

/-- An access is done as before, and noted. -/
theorem outcome_note (l : List Attempt) (act : BusM σ α) (b : Attempted σ) :
    outcome (note l act) b =
      ((outcome act b.bus).1, ⟨(outcome act b.bus).2, b.attempts ++ l⟩) := rfl

variable [Bus σ]

/-- Runs of bytes count as accesses to all of their bytes. -/
instance : Bus (Attempted σ) where
  readWord w a := note [⟨.read, a⟩] (Bus.readWord w a)
  readXmm a := note [⟨.read, a⟩] (Bus.readXmm a)
  writeWord w a v := note [⟨.write, a⟩] (Bus.writeWord w a v)
  writeXmm a v := note [⟨.write, a⟩] (Bus.writeXmm a v)
  fetch a n := note [] (Bus.fetch a n)
  readBytes a n :=
    note ((List.range n).map fun j => ⟨.read, a + UInt64.ofNat j⟩) (Bus.readBytes a n)
  writeBytes a bs :=
    note ((List.range bs.size).map fun j => ⟨.write, a + UInt64.ofNat j⟩) (Bus.writeBytes a bs)

/-- Notes are only added. -/
theorem logs : Bus.Logs (attempts : Attempted σ → List Attempt) where
  readWord _ _ _ := ⟨_, rfl, by simp⟩
  readXmm _ _ := ⟨_, rfl, by simp⟩
  writeWord _ _ _ _ := ⟨_, rfl, by simp⟩
  writeXmm _ _ _ := ⟨_, rfl, by simp⟩
  readBytes _ _ _ := ⟨_, rfl, by simp⟩
  writeBytes _ _ _ := ⟨_, rfl, by simp⟩

omit [Bus σ] in
/-- Notes make no difference to an access. -/
theorem alike_note (l : List Attempt) (act : BusM σ α) :
    Alike (fun (b : Attempted σ) c => b.bus = c) (note l act) act := by
  rintro b _ rfl
  rw [outcome_note]
  exact ⟨rfl, rfl⟩

/-- Every access ends as it does on the bus itself. -/
theorem congruence : Bus.Congruence fun (b : Attempted σ) (c : σ) => b.bus = c where
  readWord _ _ := alike_note _ _
  readXmm _ := alike_note _ _
  writeWord _ _ _ := alike_note _ _
  writeXmm _ _ := alike_note _ _
  fetch _ _ := alike_note _ _
  readBytes _ _ := alike_note _ _
  writeBytes _ _ := alike_note _ _

end Attempted

/-! ### Segments -/

/-- Operands are at the same addresses if their addresses are at the same places. -/
theorem Operand.At.congr {x : Operand} {place place' : Address → UInt64} {a : UInt64}
    (hat : x.At place a) (h : x.EachAddress fun y => place y = place' y) : x.At place' a := by
  cases x with
  | mem y => exact hat.trans h
  | reg r => exact hat
  | vec v => exact hat
  | imm v => exact hat

/-- Only the memory operands of an operation matter. -/
theorem Operation.Accesses.congr {o : Operation} {place place' : Cpu → Address → UInt64} {s : Cpu}
    {k : Access} {a : UInt64} (hacc : o.Accesses place s k a)
    (h : o.EachAddress fun y => ∀ t, place t y = place' t y) : o.Accesses place' s k a := by
  have hat : ∀ {x : Operand} {t : Cpu} {b : UInt64}, x ∈ o.operands → x.At (place t) b →
      x.At (place' t) b :=
    fun hx hxb => hxb.congr ((h _ hx).mono fun _ hy => hy _)
  -- operations that use the stack or strings have clauses of their own
  cases o with
  | lea dst y => exact hacc
  | push src w => exact hacc.imp_left (And.imp_right (hat (.head _)))
  | pop dst w => exact hacc.imp_right (And.imp_right (hat (.head _)))
  | call target => exact hacc
  | callIndirect target => exact hacc.imp_left (And.imp_right (hat (.head _)))
  | ret count => exact hacc
  | string op w times narrow => exact hacc
  | vexMove aligned dst src =>
    obtain ⟨x, hx, hlow | hhigh⟩ := hacc
    · exact ⟨x, hx, .inl (hat hx hlow)⟩
    · exact ⟨x, hx, .inr (hhigh.imp_right (hat hx))⟩
  | vexBinary op dst lhs rhs =>
    have hx : rhs ∈ (Operation.vexBinary op dst lhs rhs).operands := by simp [operands]
    exact hacc.imp (hat hx) (And.imp_right (hat hx))
  | intrinsic id => exact hacc
  | _ =>
    obtain ⟨x, hx, hxa⟩ := hacc
    exact ⟨x, hx, hat hx hxa⟩

/-! ### Instructions -/

namespace Instruction

variable {σ : Type} [Bus σ]

/-- The accesses that the execution of an instruction makes, in their order. -/
def attempts (i : Instruction) (m : Machine σ) : List Attempt :=
  (outcome (i.execute i.binding : Exec (Attempted σ) Outcome) ⟨m.cpu, ⟨m.bus, []⟩⟩).2.bus.attempts

/-- Execution does not depend on whether its accesses are noted. -/
theorem attempts_faithful (i : Instruction) (m : Machine σ) :
    outcome (i.execute i.binding : Exec (Attempted σ) Outcome) ⟨m.cpu, ⟨m.bus, []⟩⟩ =
      ((outcome (i.execute i.binding) m).1,
        ⟨(outcome (i.execute i.binding) m).2.cpu,
          ⟨(outcome (i.execute i.binding) m).2.bus, i.attempts m⟩⟩) := by
  obtain ⟨hval, hcpu, hbus⟩ := alike_execute ⟨Cpu.congruence_eq, Attempted.congruence⟩ i i.binding
    ⟨m.cpu, ⟨m.bus, []⟩⟩ m ⟨rfl, rfl⟩
  rw [← hval, ← hcpu, ← hbus]
  rfl

/-- **Segments.** An operand in memory is found at its offset from the base of the segment that the last of
    the prefixes for one selects, and without such a prefix at its offset. No prefix moves the accesses to the
    stack and to strings. -/
theorem attempts_of_decode {rip : UInt64} {bs : List UInt8} {i : Instruction}
    (h : decode rip bs = .ok i) (m : Machine σ) :
    (∀ id, i.operation ≠ .intrinsic id) ∧
      ∀ x ∈ i.attempts m, i.operation.Accesses
        (fun s a => (a.bind i.next).offset s + s.overrideBase (segmentOverride bs))
        m.cpu x.kind x.address := by
  refine ⟨fun id hid => ?_, fun x hx => ?_⟩
  · -- no bytes stand for a routine
    have hfits := (wellFormed_of_decode rip h).fits
    rw [hid] at hfits
    exact hfits
  · obtain ⟨-, l, hl, hA⟩ := i.carries_execute Attempted.logs m.cpu ⟨m.cpu, ⟨m.bus, []⟩⟩
      m.cpu.agrees_refl
    rw [List.nil_append] at hl
    -- execution adds the base of the segment that the operand itself names
    refine (hA x (hl ▸ hx)).congr ((segment_of_decode h).mono fun a ha s => ?_)
    rw [place, BoundAddress.effective_eq_offset_add, Address.segment_bind, ha]

/-- With the prefix for `fs`, `mov al, [rsi]` reads behind the base of `fs`, and `lodsb` reads at `rsi`. -/
theorem attempts_of_decode_loadString :
    let m : Machine Memory := ⟨{ Cpu.initial.setGpr .rsi 0x1000 with fsBase := 2 }, Memory.adjacent⟩
    let move : Instruction := ⟨0, .ofBytes [0x64, 0x8a, 0x06],
      .mov (.reg (.low .rax .w8)) (.mem ⟨.register .rsi, none, .one, 0, some .fs, false⟩) .w8⟩
    let load : Instruction := ⟨0, .ofBytes [0x64, 0xac], .string .lods .w8 .none false⟩
    (decode 0 [0x64, 0x8a, 0x06] = .ok move ∧ move.attempts m = [⟨.read, 0x1002⟩]) ∧
      decode 0 [0x64, 0xac] = .ok load ∧ segmentOverride [0x64, 0xac] = some .fs ∧
      load.attempts m = [⟨.read, 0x1000⟩] ∧
      ∃ g ∈ [Gpr.rsi], ∃ j < 1, 0x1000 = m.cpu.elementAddress .w8 false g j := by
  intro m move load
  have hdecode : decode 0 [0x64, 0xac] = .ok load := by decide +kernel
  have hattempts : load.attempts m = [⟨.read, 0x1000⟩] := by decide +kernel
  have haccess := (attempts_of_decode hdecode m).2 ⟨.read, 0x1000⟩ (by rw [hattempts]; exact .head _)
  exact ⟨⟨by decide +kernel, by decide +kernel⟩, hdecode, by decide, hattempts, haccess⟩

end Instruction

end Amd64
