import Amd64.Proofs.Decoder.Basic
import Amd64.Proofs.Semantics.Integer
import Amd64.Proofs.Semantics.Vector
import Amd64.Semantics.Instruction

namespace Amd64

/-!
# Decoded instructions find the operands that they need

* `Operation.MayRaise`           — the faults that an operation may end with;
* `Instruction.faultsIn_execute` — a well-formed operation ends with no others;
* `decode_fits`                  — decoded instructions have operands that fit, and cause no other faults.
-/

namespace Exec

open Fault

variable {σ : Type} [Bus σ]

/-- A call writes its return address. -/
theorem faultsIn_callTo (returnAddress target : UInt64) :
    (callTo returnAddress target : Exec σ Outcome).FaultsIn IsMemory :=
  (faultsIn_pushValue _ _).bind fun _ => faultsIn_pure _

/-- A return reads its target. -/
theorem faultsIn_returnFrom (count : UInt16) :
    (returnFrom count : Exec σ Outcome).FaultsIn IsMemory :=
  (faultsIn_popValue _).bind fun _ => faultsIn_cpu.bind fun _ =>
    (faultsIn_modifyCpu _).bind fun _ => faultsIn_pure _

end Exec

/-- The operation is a division. -/
def Operation.IsDivision : Operation → Prop
  | mulDiv .div _ _ => True
  | mulDiv .idiv _ _ => True
  | _ => False

/-- The faults that an operation may end with: only the undefined instruction is an undefined one, and only
    a division finds no quotient. -/
def Operation.MayRaise (o : Operation) : Fault → Prop
  | .memory _ => True
  | .invalidOpcode _ => o = .ud2
  | .divide _ => o.IsDivision
  | .decode _ => False

/-- Any instruction may cause a fault of memory. -/
theorem Operation.mayRaise_of_isMemory {o : Operation} {f : Fault} (h : f.IsMemory) :
    o.MayRaise f := by
  cases f with
  | memory e => trivial
  | decode e => exact absurd h id
  | divide rip => exact absurd h id
  | invalidOpcode rip => exact absurd h id

/-- Products and quotients may divide by zero. -/
theorem Exec.faultsIn_mulDiv {σ : Type} [Bus σ] (next : UInt64) (op : MulDivOp) {src : Operand}
    {w : Width} (h : src.Source w) :
    (mulDiv op (src.bind next) w : Exec σ Unit).FaultsIn (Operation.mulDiv op src w).MayRaise := by
  have hdivide : (Operation.mulDiv op src w).IsDivision → ∀ f : Fault,
      (f.IsMemory ∨ ∃ rip, f = .divide rip) → (Operation.mulDiv op src w).MayRaise f := by
    rintro hdiv f (hf | ⟨rip, rfl⟩)
    · exact Operation.mayRaise_of_isMemory hf
    · exact hdiv
  cases op with
  | mul => exact (faultsIn_multiply next mulWide h).mono fun _ => Operation.mayRaise_of_isMemory
  | imul => exact (faultsIn_multiply next imulWide h).mono fun _ => Operation.mayRaise_of_isMemory
  | div => exact (faultsIn_divide next divWide? h).mono (hdivide trivial)
  | idiv => exact (faultsIn_divide next idivWide? h).mono (hdivide trivial)

namespace Instruction

open Exec

variable {σ : Type} [Bus σ]

/-- **Execution.** An operation with operands that fit ends with the faults of memory and those that are its
    own. -/
theorem faultsIn_execute (i : Instruction) (h : i.operation.WellFormed) :
    (i.execute i.binding : Exec σ Outcome).FaultsIn i.operation.MayRaise := by
  obtain ⟨rip, encoding, o⟩ := i
  -- All operations but a division and the undefined instruction fault on memory only.
  have hrun : ∀ {x : Exec σ Unit} {out : Outcome}, x.FaultsIn Fault.IsMemory →
      (do x; return out : Exec σ Outcome).FaultsIn o.MayRaise := fun hx =>
    (hx.mono fun _ => Operation.mayRaise_of_isMemory).bind fun _ => faultsIn_pure _
  have hjump : ∀ {x : Exec σ Outcome}, x.FaultsIn Fault.IsMemory → x.FaultsIn o.MayRaise :=
    fun hx => hx.mono fun _ => Operation.mayRaise_of_isMemory
  have hfits := h.fits
  have hmem : ∀ {a b : Operand}, o.operands = [a, b] → a.isMem = false ∨ b.isMem = false :=
    fun hops => Operation.countP_isMem_pair.mp (hops ▸ h.countP_isMem_le)
  cases o with
  | arith op dst src w => exact hrun (faultsIn_arith _ op hfits.1 hfits.2)
  | cmp lhs rhs w => exact hrun (faultsIn_cmp _ hfits.1 hfits.2)
  | test lhs rhs w => exact hrun (faultsIn_test _ hfits.1 hfits.2)
  | inc dst w => exact hrun (faultsIn_update _ hfits _)
  | dec dst w => exact hrun (faultsIn_update _ hfits _)
  | neg dst w => exact hrun (faultsIn_update _ hfits _)
  | not dst w => exact hrun (faultsIn_complement _ hfits)
  | mulDiv op src w => exact (faultsIn_mulDiv _ op hfits).bind fun _ => faultsIn_pure _
  | imul dst src imm w => exact hrun (faultsIn_imul _ dst imm hfits.2)
  | shift op dst count w => exact hrun (faultsIn_shift _ op count hfits)
  | mov dst src w => exact hrun (faultsIn_mov _ hfits.1 hfits.2)
  | movzx dst src w => exact hrun (faultsIn_movzx _ dst hfits.2)
  | movsx dst src w => exact hrun (faultsIn_movsx _ dst hfits.2)
  | lea dst a => exact hrun (faultsIn_lea _ dst a)
  | xchg a b w => exact hrun (faultsIn_xchg _ hfits.1 hfits.2)
  | push src w => exact hrun (faultsIn_push _ hfits)
  | pop dst w => exact hrun (faultsIn_pop _ hfits)
  | extendAcc w => exact hrun (faultsIn_extendAcc w)
  | fillData w => exact hrun (faultsIn_fillData w)
  | jmp target => exact faultsIn_pure _
  | jcc cond target => exact faultsIn_cpu.bind fun _ => faultsIn_pure _
  | call target => exact hjump (faultsIn_callTo _ _)
  | jmpIndirect target => exact hjump ((hfits.faultsIn_read _).bind fun _ => faultsIn_pure _)
  | callIndirect target =>
    exact hjump ((hfits.faultsIn_read _).bind fun _ => faultsIn_callTo _ _)
  | ret count => exact hjump (faultsIn_returnFrom count)
  | setcc cond dst => exact hrun (faultsIn_setcc _ cond hfits)
  | cmovcc cond dst src w => exact hrun (faultsIn_cmovcc _ cond dst hfits.2)
  | flag op => exact hrun (faultsIn_flag op)
  | string op w times narrow => exact hrun (faultsIn_string op w times narrow)
  | nop => exact faultsIn_pure _
  | hlt => exact faultsIn_pure _
  | syscall => exact faultsIn_pure _
  | ud2 => exact (faultsIn_invalidOpcode fun _ => rfl).bind fun _ => faultsIn_pure _
  | sse op dst src => exact hrun (faultsIn_sse _ op hfits (hmem rfl))
  | vexMove aligned dst src => exact hrun (faultsIn_vexMove _ hfits.1 hfits.2 (hmem rfl))
  | vexBinary op dst lhs rhs => exact hrun (faultsIn_vexBinary _ op dst.size dst lhs hfits)
  | vzeroupper => exact hrun (faultsIn_modifyCpu _)
  | intrinsic id => exact hfits.elim

end Instruction

/-- **Decoded instructions.** The operands of an instruction that is decoded are of the kinds and widths that
    its execution works on, at most one of them is in memory, second bytes are those of the first four
    registers, and vector registers have numbers below 16.  Whatever the machine, execution does not end
    with an undefined instruction unless it is the undefined one, nor without a quotient unless it is a
    division. -/
theorem decode_fits {rip : UInt64} {bs : List UInt8} {i : Instruction} (h : decode rip bs = .ok i) :
    i.operation.Fits ∧
      i.operation.operands.length ≤ 3 ∧
      i.operation.operands.countP Operand.isMem ≤ 1 ∧
      (∀ g, .reg (.high g) ∈ i.operation.operands → g = .rax ∨ g = .rcx ∨ g = .rdx ∨ g = .rbx) ∧
      (∀ v, .vec v ∈ i.operation.operands → v.index.val < 16) ∧
      ∀ (σ : Type) [Bus σ] (m : Machine σ) f, (outcome (i.execute i.binding) m).1 = .error f →
        ((∃ a, f = .invalidOpcode a) → i.operation = .ud2) ∧
          ((∃ a, f = .divide a) → i.operation.IsDivision) := by
  have hwf := wellFormed_of_decode rip h
  refine ⟨hwf.fits, i.operation.length_operands_le, hwf.countP_isMem_le, fun g hg => ?_,
    fun v _ => v.index.isLt, fun σ _ m f hf => ?_⟩
  · exact hwf.fits.exists _ hg
  · have hraise := i.faultsIn_execute hwf m f hf
    refine ⟨?_, ?_⟩
    · rintro ⟨a, rfl⟩
      exact hraise
    · rintro ⟨a, rfl⟩
      exact hraise

/-- A division by `rbx`. -/
def divideByRbx : Instruction :=
  ⟨0x1000, .ofBytes [0x48, 0xf7, 0xf3], .mulDiv .div (.reg (.low .rbx .w64)) .w64⟩

/-- `div rbx` on every machine: whatever comes of it, the instruction was valid. -/
theorem decode_fits_divideByRbx :
    decode 0x1000 [0x48, 0xf7, 0xf3] = .ok divideByRbx ∧ divideByRbx.operation.Fits ∧
      ∀ (m : Machine Memory) a,
        (outcome (divideByRbx.execute divideByRbx.binding) m).1 ≠ .error (.invalidOpcode a) := by
  have h : decode 0x1000 [0x48, 0xf7, 0xf3] = .ok divideByRbx := by rfl
  obtain ⟨hfits, _, _, _, _, hfaults⟩ := decode_fits h
  refine ⟨h, hfits, fun m a ha => ?_⟩
  exact nomatch (hfaults Memory m _ ha).1 ⟨a, rfl⟩

end Amd64
