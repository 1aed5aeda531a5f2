import Amd64.Proofs.Machine.Run
import Amd64.Proofs.Simulation.Integer
import Amd64.Proofs.Simulation.Vector

namespace Amd64

/-!
# Related machines run alike

* `Instruction.alike_execute` — every operation, whatever its operands;
* `Instruction.fixed_execute` — hence the registers that no instruction changes;
* `Exec.alike_step`           — a step, when the relation between processors allows moving both instruction
  pointers;
* `runBatch_related`          — batches of steps end in the same way on related machines.
-/

namespace Exec

open Machine (Related)

variable {σ τ : Type} {E : Cpu → Cpu → Prop} {S : σ → τ → Prop} [Bus σ] [Bus τ]
  (h : Machine.Congruence E S)

include h

/-- A call pushes the same address on both sides. -/
theorem alike_callTo (returnAddress target : UInt64) :
    Alike (Related E S) (callTo returnAddress target) (callTo returnAddress target) :=
  (alike_pushValue h .w64 returnAddress).bind fun _ => alike_pure _

/-- A return pops the same address on both sides. -/
theorem alike_returnFrom (count : UInt16) :
    Alike (Related E S) (returnFrom count) (returnFrom count) := by
  refine (alike_popValue h .w64).bind fun target => alike_cpu h fun s t hst => ?_
  rw [hst.gpr]
  exact (alike_setGpr h _ _).bind fun _ => alike_pure _

end Exec

namespace Instruction

open Exec
open Machine (Related)

variable {σ τ : Type} {E : Cpu → Cpu → Prop} {S : σ → τ → Prop} [Bus σ] [Bus τ]

/-- **Execution.** An instruction does to related machines the same. -/
theorem alike_execute (h : Machine.Congruence E S) (i : Instruction) (b : Binding) :
    Alike (Related E S) (i.execute b) (i.execute b) := by
  obtain ⟨rip, encoding, o⟩ := i
  -- most operations go on with the following instruction
  have hrun : ∀ {x : Exec σ Unit} {y : Exec τ Unit} {out : Outcome}, Alike (Related E S) x y →
      Alike (Related E S) (do x; return out : Exec σ Outcome) (do y; return out : Exec τ Outcome) :=
    fun hxy => hxy.bind fun _ => alike_pure _
  cases o with
  | arith op dst src w => exact hrun (alike_arith h _ _ w op)
  | cmp lhs rhs w => exact hrun (alike_cmp h _ _ w)
  | test lhs rhs w => exact hrun (alike_test h _ _ w)
  | inc dst w => exact hrun (alike_update h _ w _)
  | dec dst w => exact hrun (alike_update h _ w _)
  | neg dst w => exact hrun (alike_update h _ w _)
  | not dst w => exact hrun (alike_complement h _ w)
  | mulDiv op src w => exact hrun (alike_mulDiv h _ w op)
  | imul dst src imm w => exact hrun (alike_imul h _ w dst imm)
  | shift op dst count w => exact hrun (alike_shift h _ w op count)
  | mov dst src w => exact hrun (alike_mov h _ _ w)
  | movzx dst src w => exact hrun (alike_movzx h _ w dst)
  | movsx dst src w => exact hrun (alike_movsx h _ w dst)
  | lea dst a => exact hrun (alike_lea h _ dst)
  | xchg l r w => exact hrun (alike_xchg h _ _ w)
  | push src w => exact hrun (alike_push h _ w)
  | pop dst w => exact hrun (alike_pop h _ w)
  | extendAcc w => exact hrun (alike_extendAcc h w)
  | fillData w => exact hrun (alike_fillData h w)
  | jmp target => exact alike_pure _
  | jcc cond target =>
    refine alike_cpu h fun s t hst => ?_
    rw [hst.holds]
    exact alike_pure _
  | call target => exact alike_callTo h _ target
  | jmpIndirect target => exact ((b.get 0).alike_read h .w64).bind fun _ => alike_pure _
  | callIndirect target =>
    exact ((b.get 0).alike_read h .w64).bind fun target => alike_callTo h _ target
  | ret count => exact alike_returnFrom h count
  | setcc cond dst => exact hrun (alike_setcc h _ cond)
  | cmovcc cond dst src w => exact hrun (alike_cmovcc h _ w cond dst)
  | flag op => exact hrun (alike_flag h op)
  | string op w times narrow => exact hrun (alike_string h w op times narrow)
  | nop => exact alike_pure _
  | hlt => exact alike_pure _
  | syscall => exact alike_pure _
  | ud2 => exact (alike_invalidOpcode h).bind fun _ => alike_pure _
  | sse op dst src => exact hrun (alike_sse h _ _ op)
  | vexMove aligned dst src => exact hrun (alike_vexMove h _ _ _)
  | vexBinary op dst lhs rhs => exact hrun (alike_vexBinary h _ op dst.size _ _)
  | vzeroupper => exact hrun (alike_modifyCpu h.cpu.zeroUpper)
  | intrinsic id => exact (alike_intrinsic h id).bind fun _ => alike_pure _

/-- **Fixed registers.** Whether it succeeds or fails, execution leaves the instruction pointer and the
    bases of segments. -/
theorem fixed_execute {σ : Type} [Bus σ] (i : Instruction) (b : Binding) (m : Machine σ) :
    (outcome (i.execute b : Exec σ Outcome) m).2.cpu.rip = m.cpu.rip ∧
      (outcome (i.execute b : Exec σ Outcome) m).2.cpu.fsBase = m.cpu.fsBase ∧
      (outcome (i.execute b : Exec σ Outcome) m).2.cpu.gsBase = m.cpu.gsBase := by
  -- a machine runs like itself, and no instruction can change what these registers hold
  have hcpu : Cpu.Congruence fun s t => s = t ∧
      (s.rip = m.cpu.rip ∧ s.fsBase = m.cpu.fsBase ∧ s.gsBase = m.cpu.gsBase) :=
    Cpu.congruence_eq_and (fun _ _ _ hs => hs) (fun _ _ hs => hs) fun _ _ hs => hs
  obtain ⟨-, ⟨-, hfixed⟩, -⟩ := alike_execute ⟨hcpu, Bus.congruence_eq σ⟩ i b m m
    ⟨⟨rfl, rfl, rfl, rfl⟩, rfl⟩
  exact hfixed

end Instruction

namespace Exec

open Machine (Related)

variable {σ τ : Type} {E : Cpu → Cpu → Prop} {S : σ → τ → Prop} [Bus σ] [Bus τ]
  (h : Machine.Congruence E S)

include h

/-- The same bytes are fetched, so the same instruction is decoded. -/
theorem alike_fetchInstruction (table : IntrinsicTable) (rip : UInt64) :
    Alike (Related E S) (fetchInstruction table rip) (fetchInstruction table rip) := by
  unfold fetchInstruction
  split
  · exact alike_pure _
  · refine (alike_access (h.bus.fetch rip Encoding.maxSize)).bind fun bytes => ?_
    split
    · exact alike_pure _
    · exact alike_throw _

variable (hrip : ∀ a, Cpu.Keeps E (·.setRip a))

include hrip

/-- The same instruction is retired with the same binding. -/
theorem alike_retire (i : Instruction) (b : Binding) :
    Alike (Related E S) (retire i b) (retire i b) :=
  (i.alike_execute h b).bind fun out => (alike_modifyCpu (hrip out.rip)).bind fun _ =>
    alike_pure out.exit

/-- A step, whose fault is followed by the same restoring of the instruction pointer. -/
theorem alike_step (table : IntrinsicTable) : Alike (Related E S) (step table) (step table) := by
  refine alike_cpu h fun s t hst => ?_
  rw [hst.rip]
  exact (alike_fetchInstruction h table t.rip).bind fun i => alike_retire h hrip i i.binding

end Exec

section
open Machine (Related)

variable {σ τ : Type} {E : Cpu → Cpu → Prop} {S : σ → τ → Prop} [Bus σ] [Bus τ]

/-- A run, by induction on the number of steps. -/
theorem runFrom_related (h : Machine.Congruence E S) (hrip : ∀ a, Cpu.Keeps E (·.setRip a))
    (table : IntrinsicTable) (executed n : Nat) {m : Machine σ} {m' : Machine τ}
    (hm : Related E S m m') :
    ((runFrom table executed n).run m).1 = ((runFrom table executed n).run m').1 ∧
      Related E S ((runFrom table executed n).run m).2 ((runFrom table executed n).run m').2 := by
  induction n generalizing executed m m' with
  | zero => exact ⟨rfl, hm⟩
  | succ n ih =>
    rw [runFrom_succ, runFrom_succ]
    obtain ⟨f, n, n', hn, hn', hrel⟩ | ⟨exit, n, n', hn, hn', hrel⟩ :=
      (Exec.alike_step h hrip table).outcomes hm
    · rw [hn, hn']
      exact ⟨rfl, hrel⟩
    · rw [hn, hn']
      cases exit with
      | proceed => exact ih (executed + 1) hrel
      | halted => exact ⟨rfl, hrel⟩
      | syscall => exact ⟨rfl, hrel⟩

/-- **Runs.** On related machines a batch ends in the same way and leaves related machines. -/
theorem runBatch_related (h : Machine.Congruence E S) (hrip : ∀ a, Cpu.Keeps E (·.setRip a))
    (table : IntrinsicTable) (n : Nat) {m : Machine σ} {m' : Machine τ} (hm : Related E S m m') :
    ((runBatch table n).run m).1 = ((runBatch table n).run m').1 ∧
      Related E S ((runBatch table n).run m).2 ((runBatch table n).run m').2 :=
  runFrom_related h hrip table 0 n hm

end

end Amd64
