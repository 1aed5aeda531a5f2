import Amd64.Proofs.Memory.Access
import Amd64.Proofs.Semantics.Footprint.Integer
import Amd64.Proofs.Semantics.Footprint.Strings
import Amd64.Proofs.Semantics.Footprint.Vector
import Amd64.Semantics.Instruction

namespace Amd64

/-!
# What instructions touch

* `Operation.effect`             — the general-purpose registers and flags that an operation may change;
* `Operation.Accesses`           — where it may make accesses;
* `Instruction.carries_execute`  — execution does no more than this, one case for each operation;
* `Instruction.execute_changesOnly` — so an instruction writes only what its class defines.
-/

/-- The general-purpose register that an operand is, if it is one. -/
def Operand.gprs : Operand → List Gpr
  | reg r => [r.gpr]
  | _ => []

/-- The operand is in memory, and `place` puts it at the address `a`. -/
def Operand.At (o : Operand) (place : Address → UInt64) (a : UInt64) : Prop :=
  match o with
  | mem x => a = place x
  | _ => False

/-- The flags that an operation writes. -/
def MulDivOp.flagEffect : MulDivOp → Flags
  | mul | imul => .carryOverflow
  | div | idiv => .empty

namespace Operation

/-- The general-purpose registers and flags that an operation may change. Counts are those at the start. -/
def effect (o : Operation) (s : Cpu) : Effect :=
  match o with
  | arith op dst _ _ => ⟨dst.gprs, op.flagEffect⟩
  | cmp _ _ _ => ⟨[], .status⟩
  | test _ _ _ => ⟨[], .withoutAdjust⟩
  | inc dst _ | dec dst _ => ⟨dst.gprs, .withoutCarry⟩
  | neg dst _ => ⟨dst.gprs, .status⟩
  | not dst _ => ⟨dst.gprs, .empty⟩
  | mulDiv op _ _ => ⟨[.rax, .rdx], op.flagEffect⟩
  | imul dst _ _ _ => ⟨[dst.gpr], .carryOverflow⟩
  | shift op dst count w =>
    ⟨dst.gprs, if count.given s % (if w = .w64 then 64 else 32) = 0 then .empty else op.flagEffect⟩
  | mov dst _ _ | setcc _ dst => ⟨dst.gprs, .empty⟩
  | movzx dst _ _ | movsx dst _ _ | lea dst _ | cmovcc _ dst _ _ => ⟨[dst.gpr], .empty⟩
  | xchg a b _ => ⟨a.gprs ++ b.gprs, .empty⟩
  | push _ _ | call _ | callIndirect _ | ret _ => ⟨[.rsp], .empty⟩
  | pop dst _ => ⟨.rsp :: dst.gprs, .empty⟩
  | extendAcc _ => ⟨[.rax], .empty⟩
  | fillData _ => ⟨[.rdx], .empty⟩
  | flag op => ⟨[], op.flagEffect⟩
  | string op _ times narrow => op.effect times (s.rounds times narrow)
  | sse op dst _ => op.effect dst.gprs
  | intrinsic _ => ⟨[.rax, .rsp], .empty⟩
  | jmp _ | jcc _ _ | jmpIndirect _ | nop | hlt | syscall | ud2 | vexMove _ _ _ | vexBinary _ _ _ _
  | vzeroupper => ⟨[], .empty⟩

/-- An operation on the registers `s` may make an access of a kind at `a`, where `place` says where an operand
    in memory is. A `pop` looks its operand up with the moved stack pointer, and an access of 256 bits is made
    in two halves. Routines may make accesses anywhere. -/
def Accesses (o : Operation) (place : Cpu → Address → UInt64) (s : Cpu) (k : Access) (a : UInt64) :
    Prop :=
  match o with
  | lea _ _ => False
  | push src w => k = .read ∧ src.At (place s) a ∨ k = .write ∧ a = s.gpr .rsp - UInt64.ofNat w.bytes
  | pop dst w =>
    k = .read ∧ a = s.gpr .rsp ∨
      k = .write ∧ dst.At (place (s.setGpr .rsp (s.gpr .rsp + UInt64.ofNat w.bytes))) a
  | call _ => k = .write ∧ a = s.gpr .rsp - 8
  | callIndirect target => k = .read ∧ target.At (place s) a ∨ k = .write ∧ a = s.gpr .rsp - 8
  | ret _ => k = .read ∧ a = s.gpr .rsp
  | string op w times narrow =>
    ∃ g ∈ op.accessed k, ∃ j < s.rounds times narrow, a = s.elementAddress w narrow g j
  | vexMove _ dst src =>
    ∃ x ∈ [dst, src], x.At (place s) a ∨
      (dst.vecSize? <|> src.vecSize?) = some .ymm ∧ x.At (place s) (a - 16)
  | vexBinary _ dst _ rhs => rhs.At (place s) a ∨ dst.size = .ymm ∧ rhs.At (place s) (a - 16)
  | intrinsic _ => True
  | o => ∃ x ∈ o.operands, x.At (place s) a

end Operation

/-- Where a memory operand of an instruction is. -/
def Instruction.place (i : Instruction) (s : Cpu) (x : Address) : UInt64 :=
  (x.bind i.next).effective s

namespace Operand

variable {o : Operand} {i : Instruction} {s : Cpu} {k : Access} {A : Access → UInt64 → Prop}

/-- An operand is within the addresses of its place. -/
theorem within_bind (h : ∀ a, o.At (i.place s) a → A k a) : (o.bind i.next).Within k A s := by
  cases o with
  | mem x => exact h _ rfl
  | reg r => trivial
  | vec v => trivial
  | imm v => trivial

/-- A wide operand is within the addresses of its place and of the place 16 bytes on. -/
theorem withinWide_bind {size : VecSize} (h : ∀ a, o.At (i.place s) a → A k a)
    (hhigh : size = .ymm → ∀ a, o.At (i.place s) (a - 16) → A k a) :
    (o.bind i.next).WithinWide size k A s := by
  cases o with
  | mem x =>
    cases size with
    | xmm => exact h _ rfl
    | ymm => exact ⟨h _ rfl, hhigh rfl _ (UInt64.add_sub_cancel _ _)⟩
  | reg r => cases size <;> trivial
  | vec v => cases size <;> trivial
  | imm v => cases size <;> trivial

/-- Each operand of an instruction is within the places of all. -/
theorem within_of_mem {l : List Operand} (ho : o ∈ l) :
    (o.bind i.next).Within k (fun _ a => ∃ x ∈ l, x.At (i.place s) a) s :=
  within_bind fun _ ha => ⟨o, ho, ha⟩

/-- Binding does not add registers. -/
theorem mem_gprs_of_bind {next : UInt64} {g : Gpr} (hg : g ∈ (o.bind next).gprs) : g ∈ o.gprs := by
  cases o <;> exact hg

end Operand

namespace Exec

variable {σ : Type} [Bus σ] {log : σ → List Attempt} (hlog : Bus.Logs log)
  {A : Access → UInt64 → Prop} {s : Cpu} {gs : List Gpr} {mask : Flags}

include hlog

/-- Products and quotients change the two registers of their result. -/
theorem carries_mulDiv (op : MulDivOp) {src : Location} (hsrc : src.Within .read A s) (w : Width) :
    Carries log A s.Agrees (s.ChangesOnly ⟨[.rax, .rdx], op.flagEffect⟩)
      (mulDiv op src w : Exec σ Unit) := by
  cases op with
  | mul => exact carries_multiply hlog hsrc w mulWide
  | imul => exact carries_multiply hlog hsrc w imulWide
  | div => exact carries_divide hlog hsrc w divWide?
  | idiv => exact carries_divide hlog hsrc w idivWide?

/-- A call writes its return address below the stack pointer. -/
theorem carries_callTo (ha : A .write (s.gpr .rsp - 8)) (hrsp : .rsp ∈ gs)
    (returnAddress target : UInt64) :
    Carries log A s.Agrees (s.ChangesOnly ⟨gs, mask⟩) (callTo returnAddress target : Exec σ Outcome) :=
  (carries_pushValue (w := .w64) hlog ha hrsp returnAddress).bind fun _ =>
    carries_pure (fun _ hu => hu) _

/-- The arguments are taken off the stack behind the return address. -/
theorem carries_returnFrom (ha : A .read (s.gpr .rsp)) (hrsp : .rsp ∈ gs) (count : UInt16) :
    Carries log A s.Agrees (s.ChangesOnly ⟨gs, mask⟩) (returnFrom count : Exec σ Outcome) := by
  have hmoved : s.ChangesOnly ⟨gs, mask⟩ (s.setGpr .rsp (s.gpr .rsp + UInt64.ofNat Width.w64.bytes)) :=
    s.agrees_refl.changesOnly.setGpr hrsp _
  refine (carries_popValue hlog ha .w64).bind fun target => carries_cpu fun t ht => ?_
  refine Carries.bind ?_ fun _ => carries_pure (fun _ hu => hu) _
  exact (carries_setGpr hrsp _).ofAgrees.post fun _ hu => hmoved.trans hu

end Exec

namespace Instruction

open Exec

variable {σ : Type} [Bus σ] {log : σ → List Attempt}

/-- **Footprints.** Execution makes accesses only where the operation may, and changes no more than it may. -/
theorem carries_execute (hlog : Bus.Logs log) (i : Instruction) (s : Cpu) :
    Carries log (i.operation.Accesses i.place s) s.Agrees (s.ChangesOnly (i.operation.effect s))
      (i.execute i.binding : Exec σ Outcome) := by
  obtain ⟨rip, encoding, o⟩ := i
  -- most operations go on with the following instruction
  have hrun : ∀ {A : Access → UInt64 → Prop} {e : Effect} {x : Exec σ Unit} {out : Outcome},
      Carries log A s.Agrees (s.ChangesOnly e) x →
      Carries log A s.Agrees (s.ChangesOnly e) (do x; return out : Exec σ Outcome) :=
    fun hx => hx.bind fun _ => carries_pure (fun _ hu => hu) _
  have hpure : ∀ {A : Access → UInt64 → Prop} {e : Effect} (out : Outcome),
      Carries log A s.Agrees (s.ChangesOnly e) (pure out : Exec σ Outcome) :=
    fun out => carries_pure (fun _ hu => hu.changesOnly) out
  have hgs : ∀ {next : UInt64} {x : Operand}, ∀ g ∈ (x.bind next).gprs, g ∈ x.gprs :=
    fun _ hg => Operand.mem_gprs_of_bind hg
  -- the first and the second of the operands
  have h0 : ∀ {i : Instruction} {x : Operand} {l : List Operand} (k : Access),
      (x.bind i.next).Within k (fun _ a => ∃ y ∈ x :: l, y.At (i.place s) a) s :=
    fun _ => Operand.within_of_mem (.head _)
  have h1 : ∀ {i : Instruction} {x y : Operand} {l : List Operand} (k : Access),
      (y.bind i.next).Within k (fun _ a => ∃ z ∈ x :: y :: l, z.At (i.place s) a) s :=
    fun _ => Operand.within_of_mem (.tail _ (.head _))
  cases o with
  | arith op dst src w => exact hrun (carries_arith hlog h0 hgs w (h1 .read) op)
  | cmp lhs rhs w => exact hrun (carries_cmp hlog (h0 .read) w (h1 .read))
  | test lhs rhs w => exact hrun (carries_test hlog (h0 .read) w (h1 .read))
  | inc dst w =>
    exact hrun (carries_update hlog h0 hgs w fun a => s.flags.sameOutside_incFlags w a)
  | dec dst w =>
    exact hrun (carries_update hlog h0 hgs w fun a => s.flags.sameOutside_decFlags w a)
  | neg dst w =>
    exact hrun (carries_update hlog h0 hgs w fun a => s.flags.sameOutside_subFlags w 0 a false)
  | not dst w => exact hrun (carries_complement hlog h0 hgs w)
  | mulDiv op src w => exact hrun (carries_mulDiv hlog op (h0 .read) w)
  | imul dst src imm w => exact hrun (carries_imul hlog (h1 .read) w (.head _) imm)
  | shift op dst count w => exact hrun (carries_shift hlog h0 hgs w op count)
  | mov dst src w => exact hrun (carries_mov hlog (h1 .read) w (h0 .write) hgs)
  | movzx dst src w => exact hrun (carries_movzx hlog (h1 .read) w (.head _))
  | movsx dst src w => exact hrun (carries_movsx hlog (h1 .read) w (.head _))
  | lea dst a => exact hrun (carries_lea (.head _))
  | xchg a b w =>
    exact hrun (carries_xchg hlog h0 h1 (fun g hg => List.mem_append_left _ (hgs g hg))
      (fun g hg => List.mem_append_right _ (hgs g hg)) w)
  | push src w =>
    exact hrun (carries_push hlog (Operand.within_bind fun _ ha => .inl ⟨rfl, ha⟩) (.inr ⟨rfl, rfl⟩)
      (.head _))
  | pop dst w =>
    exact hrun (carries_pop hlog (.inl ⟨rfl, rfl⟩)
      (Operand.within_bind fun _ ha => .inr ⟨rfl, ha⟩) (fun g hg => .tail _ (hgs g hg)) (.head _))
  | extendAcc w => exact hrun (carries_extendAcc (.head _) w)
  | fillData w => exact hrun (carries_fillData (.head _) w)
  | jmp target => exact hpure _
  | jcc cond target => exact carries_cpu fun t _ => hpure _
  | call target =>
    refine carries_callTo hlog ?_ (.head _) _ target
    exact ⟨rfl, rfl⟩
  | jmpIndirect target =>
    exact (Location.carries_read hlog (h0 .read) .w64).bind fun a => hpure _
  | callIndirect target =>
    refine (Location.carries_read hlog ?_ .w64).bind fun a => carries_callTo hlog ?_ (.head _) _ a
    · exact Operand.within_bind fun _ ha => .inl ⟨rfl, ha⟩
    · exact .inr ⟨rfl, rfl⟩
  | ret count =>
    refine carries_returnFrom hlog ?_ (.head _) count
    exact ⟨rfl, rfl⟩
  | setcc cond dst => exact hrun (carries_setcc hlog (h0 .write) hgs cond)
  | cmovcc cond dst src w => exact hrun (carries_cmovcc hlog (h1 .read) w cond (.head _))
  | flag op => exact hrun (carries_flag op)
  | string op w times narrow =>
    exact hrun (carries_string hlog op times fun k g hg j hj => ⟨g, hg, j, hj, rfl⟩)
  | nop => exact hpure _
  | hlt => exact hpure _
  | syscall => exact hpure _
  | ud2 => exact carries_invalidOpcode.bind fun _ => hpure _
  | sse op dst src => exact hrun (carries_sse hlog (h1 .read) h0 hgs op)
  | vexMove aligned dst src =>
    -- either half of either operand
    have hwide : ∀ x ∈ [dst, src], ∀ n, (dst.vecSize? <|> src.vecSize?) = some n → ∀ k,
        (x.bind (Instruction.mk rip encoding (.vexMove aligned dst src)).next).WithinWide n k
          ((Operation.vexMove aligned dst src).Accesses (Instruction.place ⟨rip, encoding, _⟩) s) s :=
      fun x hx n hn k => Operand.withinWide_bind (fun a ha => ⟨x, hx, .inl ha⟩)
        fun hy a ha => ⟨x, hx, .inr ⟨hy ▸ hn, ha⟩⟩
    refine hrun ((carries_vexMove hlog fun n hn => ⟨?_, ?_⟩).post fun _ hu => hu.changesOnly)
    · exact hwide dst (.head _) n hn .write
    · exact hwide src (.tail _ (.head _)) n hn .read
  | vexBinary op dst lhs rhs =>
    have hvec : ∀ {v : VecReg} {k : Access} {A : Access → UInt64 → Prop},
        (Location.vec v).WithinWide dst.size k A s := by
      cases dst.size <;> intros <;> trivial
    refine hrun ((carries_vexBinary hlog op hvec hvec ?_).post fun _ hu => hu.changesOnly)
    exact Operand.withinWide_bind (fun a ha => .inl ha) fun hy a ha => .inr ⟨hy, ha⟩
  | vzeroupper =>
    have hzero : ∀ u, s.Agrees u → s.Agrees u.zeroUpper :=
      fun _ hu => ⟨hu.gprs, hu.rip, hu.flags, hu.fsBase, hu.gsBase⟩
    exact hrun (carries_modifyCpu fun u hu => (hzero u hu).changesOnly)
  | intrinsic id =>
    exact (carries_intrinsic hlog (fun _ _ => trivial) id).bind fun _ =>
      carries_pure (fun _ hu => hu) _

/-- **Frame.** An instruction that succeeds leaves the instruction pointer and the bases of segments, and
    changes no general-purpose registers and flags other than those of its operation. -/
theorem execute_changesOnly (i : Instruction) {m m' : Machine σ} {out : Outcome}
    (h : outcome (i.execute i.binding) m = (.ok out, m')) :
    m.cpu.ChangesOnly (i.operation.effect m.cpu) m'.cpu := by
  have hcarries := i.carries_execute (Bus.logs_nil σ) m.cpu m m.cpu.agrees_refl
  rw [h] at hcarries
  exact hcarries.1 out rfl

/-- Two strings are compared until they differ. The data register and the direction stay what they were. -/
theorem execute_changesOnly_compareStrings :
    let i : Instruction := ⟨0x1000, .ofBytes [0xf3, 0xa6], .string .cmps .w8 .repe false⟩
    let s := ((Cpu.initial.setGpr .rcx 2).setGpr .rsi 0x1000).setGpr .rdi 0x1001
    let m : Machine Memory := ⟨s, Memory.adjacent⟩
    (outcome (i.execute i.binding) m).1 = .ok (.next 0x1002) ∧
      i.operation.effect s = ⟨[.rcx, .rdi, .rsi], .status⟩ ∧
      (outcome (i.execute i.binding) m).2.cpu.gpr .rdx = s.gpr .rdx ∧
      (outcome (i.execute i.binding) m).2.cpu.flags.direction = false := by
  intro i s m
  have hok : (outcome (i.execute i.binding) m).1 = .ok (.next 0x1002) := by decide +kernel
  have heffect : i.operation.effect s = ⟨[.rcx, .rdi, .rsi], .status⟩ := by decide +kernel
  have hframe := execute_changesOnly i (Prod.ext hok rfl : outcome (i.execute i.binding) m = (_, _))
  have hgprs : Gpr.rdx ∉ (i.operation.effect s).gprs := by rw [heffect]; decide
  refine ⟨hok, heffect, hframe.gpr .rdx hgprs, (hframe.flags.direction ?_).trans rfl⟩
  show (i.operation.effect s).flags.direction = false
  rw [heffect]
  rfl

end Instruction

end Amd64
