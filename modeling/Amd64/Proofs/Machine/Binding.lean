import Amd64.Machine.Binding

namespace Amd64

/-!
# Bound operands

* `Instruction.get_binding`, `Instruction.mem_of_mem_locations` — operands are bound one by one;
* `BoundAddress.effective_eq_offset_add` — an access is at the offset behind the base of the segment;
* `Address.offset_bind`    — the offset as the words of base, index and displacement.
-/

namespace Instruction

variable {i : Instruction}

/-- Operands are bound one by one. -/
theorem get_binding {k : Nat} {o : Operand} (h : i.operation.operands[min k 2]? = some o) :
    i.binding.get k = o.bind i.next := by
  rw [binding, Binding.get, List.getD_eq_getElem?_getD, List.getElem?_map, h]
  rfl

/-- A bound operand in memory was an operand in memory. -/
theorem mem_of_mem_locations {b : BoundAddress} (h : .mem b ∈ i.binding.locations) :
    ∃ a, .mem a ∈ i.operation.operands ∧ b = a.bind i.next := by
  obtain ⟨o, ho, hb⟩ := List.mem_map.mp h
  cases o with
  | mem a => exact ⟨a, ho, (Location.mem.inj hb).symm⟩
  | reg r => exact nomatch hb
  | vec v => exact nomatch hb
  | imm v => exact nomatch hb

end Instruction

/-! ### Segments -/

/-- The base of a segment; zero if none is selected. -/
def Cpu.overrideBase (s : Cpu) : Option SegmentRegister → UInt64
  | none => 0
  | some r => s.segmentBase r

/-- The base of the segment is added last. -/
theorem BoundAddress.effective_eq_offset_add (m : BoundAddress) (s : Cpu) :
    m.effective s = m.offset s + s.overrideBase m.segment := by
  rw [effective]
  cases m.segment with
  | none => exact (UInt64.add_zero _).symm
  | some r => rfl

namespace Address

variable (a : Address) (next : UInt64) (s : Cpu)

theorem segment_bind : (a.bind next).segment = a.segment := by
  unfold bind
  cases a.base <;> rfl

/-! ### Offsets -/

/-- The word that an address starts from. -/
def baseWord : UInt64 :=
  match a.base with
  | .zero => 0
  | .register g => s.gpr g
  | .next => next

/-- The word of the scaled index. -/
def indexWord : UInt64 :=
  match a.index with
  | none => 0
  | some g => s.gpr g * UInt64.ofNat a.scale.factor

/-- Binding adds the address behind the instruction to the displacement, which does not matter. -/
theorem offset_bind : (a.bind next).offset s =
    let sum := a.displacement.toInt64.toUInt64 + a.baseWord next s + a.indexWord s
    if a.narrow then Width.w32.truncate sum else sum := by
  unfold bind BoundAddress.offset baseWord indexWord
  cases a.base with
  | zero => rfl
  | register g => rfl
  | next =>
    have hsum : next + a.displacement.toInt64.toUInt64 + 0 = a.displacement.toInt64.toUInt64 + next := by
      rw [UInt64.add_zero, UInt64.add_comm]
    exact congrArg (fun sum => if a.narrow then Width.w32.truncate (sum + a.indexWord s)
      else sum + a.indexWord s) hsum

end Address

end Amd64
