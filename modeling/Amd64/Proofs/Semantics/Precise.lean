import Amd64.Proofs.Semantics.Precise.Integer
import Amd64.Proofs.Semantics.Precise.Vector

namespace Amd64

/-!
# Precise faults

* `Operation.IsInterruptible` — the operations that a fault may interrupt halfway;
* `Instruction.precise_execute` — when another one ends with a fault, the machine is as it was;
* `Instruction.precise_cpu_execute` — when a routine does, its registers are.
-/

/-- A fault may interrupt the operation halfway: the repetition of a string instruction, a routine that
    writes a run of bytes, and the store of 256 bits, whose halves are written one after the other. -/
def Operation.IsInterruptible : Operation → Prop
  | string _ _ times _ => times ≠ .none
  | intrinsic id => id = .memcpy ∨ id = .memset
  | vexMove _ dst src => dst.isMem = true ∧ src.vecSize? = some .ymm
  | _ => False

namespace Instruction

open Exec

/-- **Execution.** An operation with operands that fit, or a routine, leaves the contents of the machine
    when it ends with a fault, unless it is one of those that may be interrupted. -/
theorem precise_execute (i : Instruction)
    (h : i.operation.WellFormed ∨ ∃ id, i.operation = .intrinsic id)
    (hwhole : ¬ i.operation.IsInterruptible) :
    Precise Machine.contents (i.execute i.binding : Exec Memory Outcome) := by
  obtain ⟨rip, encoding, o⟩ := i
  -- most operations go on with the following instruction
  have hrun : ∀ {x : Exec Memory Unit} {out : Outcome}, Precise Machine.contents x →
      Precise Machine.contents (do x; return out : Exec Memory Outcome) :=
    fun hx => hx.bind_total fun _ => faultsIn_pure _
  have hfits : (∀ id, o ≠ .intrinsic id) → o.WellFormed := fun hno =>
    h.resolve_right fun ⟨id, hid⟩ => hno id hid
  cases o with
  | arith op dst src w => exact hrun (precise_arith _ _ w op)
  | cmp lhs rhs w => exact hrun (precise_cmp _ _ w)
  | test lhs rhs w => exact hrun (precise_test _ _ w)
  | inc dst w => exact hrun (precise_update _ w _)
  | dec dst w => exact hrun (precise_update _ w _)
  | neg dst w => exact hrun (precise_update _ w _)
  | not dst w => exact hrun (precise_complement _ w)
  | mulDiv op src w => exact hrun (precise_mulDiv _ w op)
  | imul dst src imm w => exact hrun (precise_imul _ w dst imm)
  | shift op dst count w => exact hrun (precise_shift _ w op count)
  | mov dst src w => exact hrun (precise_mov _ _ w)
  | movzx dst src w => exact hrun (precise_movzx _ w dst)
  | movsx dst src w => exact hrun (precise_movsx _ w dst)
  | lea dst a => exact hrun (precise_lea _ dst)
  | xchg a b w =>
    have hwf := hfits fun _ hid => nomatch hid
    have hmem := Operation.countP_isMem_pair.mp hwf.countP_isMem_le
    exact hrun (precise_xchg hwf.fits.1 hwf.fits.2 hmem _)
  | push src w => exact hrun (precise_push _ w)
  | pop dst w => exact hrun (precise_pop _ w)
  | extendAcc w => exact hrun (Total.precise (faultsIn_extendAcc w))
  | fillData w => exact hrun (Total.precise (faultsIn_fillData w))
  | jmp target => exact (keeps_pure _).precise
  | jcc cond target => exact keeps_cpu.precise_bind fun _ => (keeps_pure _).precise
  | call target => exact precise_callTo _ target
  | jmpIndirect target =>
    exact (Location.keeps_read _ .w64).precise_bind fun _ => (keeps_pure _).precise
  | callIndirect target =>
    exact (Location.keeps_read _ .w64).precise_bind fun target => precise_callTo _ target
  | ret count => exact precise_returnFrom count
  | setcc cond dst => exact hrun (precise_setcc _ cond)
  | cmovcc cond dst src w => exact hrun (precise_cmovcc _ w cond dst)
  | flag op => exact hrun (Total.precise (faultsIn_flag op))
  | string op w times narrow =>
    obtain rfl : times = .none := Decidable.not_not.mp hwhole
    exact hrun (precise_stringStep w op narrow)
  | nop => exact (keeps_pure _).precise
  | hlt => exact (keeps_pure _).precise
  | syscall => exact (keeps_pure _).precise
  | ud2 => exact hrun keeps_invalidOpcode.precise
  | sse op dst src => exact hrun (precise_sse _ _ op)
  | vexMove aligned dst src =>
    refine hrun (precise_vexMove _ _ ?_)
    -- a destination in memory leaves the size to the source
    cases hmem : dst.isMem with
    | false => exact Or.inl ((dst.isMem_bind _).trans hmem)
    | true =>
      refine Or.inr fun hsize => hwhole ⟨hmem, ?_⟩
      cases dst with
      | mem a => exact hsize
      | _ => exact nomatch hmem
  | vexBinary op dst lhs rhs => exact hrun (precise_vexBinary _ op dst.size _ _ rfl)
  | vzeroupper => exact hrun (Total.precise (faultsIn_modifyCpu _))
  | intrinsic id =>
    have hid : id ≠ .memcpy ∧ id ≠ .memset := not_or.mp hwhole
    exact (precise_intrinsic id fun s => keeps_routine id s hid).bind_total fun _ => faultsIn_pure _

/-- A routine leaves the registers when it ends with a fault. -/
theorem precise_cpu_execute (rip : UInt64) (id : Intrinsic) :
    Precise Machine.cpu
      ((ofIntrinsic rip id).execute (ofIntrinsic rip id).binding : Exec Memory Outcome) :=
  (precise_intrinsic id (keeps_cpu_routine id)).bind_total fun _ => faultsIn_pure _

end Instruction

end Amd64
