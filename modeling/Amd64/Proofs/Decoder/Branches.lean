import Amd64.Proofs.Arithmetic.Words
import Amd64.Proofs.Decoder.AddressCode
import Amd64.Proofs.Decoder.Basic

namespace Amd64

/-!
# Decoding at another place

Of everything that is decoded only the targets of relative branches depend on the address of the bytes.

* `Operation.target?`     — the target of a relative branch;
* `Instruction.moveTo`, `DecodeError.moveTo` — what is decoded if the same bytes are elsewhere;
* `BranchEncoding`        — the opcodes of relative branches and the widths of their displacements;
* `Instruction.BranchesTo` — the bytes of an instruction end in the displacement of a branch to a target;
* `Reader.branchRead_body` — a branch is read with its whole displacement, and nothing else has a target;
* `decode_eq_moveTo`, `decode_positions` — decoding at two places, and where branches lead.
-/

open Reader

/-- The target of a relative branch. -/
def Operation.target? : Operation → Option UInt64
  | jmp target => some target
  | jcc _ target => some target
  | call target => some target
  | _ => none

/-- The instruction that the same bytes are at `rip`: its branch leads as far as it did. -/
def Instruction.moveTo (i : Instruction) (rip : UInt64) : Instruction :=
  ⟨rip, i.encoding, i.operation.relocate (rip - i.rip)⟩

/-- The error that the same bytes are at `rip`. -/
def DecodeError.moveTo (e : DecodeError) (rip : UInt64) : DecodeError :=
  { e with addr := rip }

/-- The operation is a relative branch to `target` with the opcode `opcode`, behind which there is a
    displacement of width `w`. -/
inductive BranchEncoding (target : UInt64) : (opcode : List UInt8) → (w : Width) → Operation → Prop where
  | jmpShort : BranchEncoding target [0xeb] .w8 (.jmp target)
  | jmpNear : BranchEncoding target [0xe9] .w32 (.jmp target)
  | call : BranchEncoding target [0xe8] .w32 (.call target)
  | jccShort {op : UInt8} (h : 0x70 ≤ op ∧ op ≤ 0x7f) :
    BranchEncoding target [op] .w8 (.jcc (.ofOpcode op) target)
  | jccNear {op : UInt8} (h : 0x80 ≤ op ∧ op ≤ 0x8f) :
    BranchEncoding target [0x0f, op] .w32 (.jcc (.ofOpcode op) target)

/-- The bytes of the instruction are prefixes, the opcode of a branch and its displacement, which counts from
    the end of these bytes. -/
def Instruction.BranchesTo (i : Instruction) (target : UInt64) : Prop :=
  ∃ run opcode displacement w, i.encoding.bytes = run ++ opcode ++ displacement ∧
    (∀ b ∈ run, isPrefixByte b = true) ∧ displacement.length = w.bytes ∧
    BranchEncoding target opcode w i.operation ∧
    (target.toNat : Int) = (i.rip.toNat + i.size + LittleEndian.signed displacement) % 2 ^ 64

/-! ### Moving -/

namespace Operation

/-- Moves add up. -/
theorem relocate_relocate (o : Operation) (x y : UInt64) :
    (o.relocate x).relocate y = o.relocate (y + x) := by
  cases o with
  | jmp target => exact congrArg jmp (UInt64.add_assoc y x target).symm
  | jcc cond target => exact congrArg (jcc cond) (UInt64.add_assoc y x target).symm
  | call target => exact congrArg call (UInt64.add_assoc y x target).symm
  | _ => rfl

/-- The target moves with the instruction. -/
theorem target?_relocate (o : Operation) (origin : UInt64) :
    (o.relocate origin).target? = o.target?.map (origin + ·) := by
  cases o <;> rfl

end Operation

/-- What encodes a branch encodes it elsewhere, too. -/
theorem BranchEncoding.relocate {target : UInt64} {opcode : List UInt8} {w : Width} {o : Operation}
    (h : BranchEncoding target opcode w o) (origin : UInt64) :
    BranchEncoding (origin + target) opcode w (o.relocate origin) := by
  cases h with
  | jmpShort => exact .jmpShort
  | jmpNear => exact .jmpNear
  | call => exact .call
  | jccShort h => exact .jccShort h
  | jccNear h => exact .jccNear h

/-- The encoding names the target of the operation. -/
theorem BranchEncoding.target?_eq {target : UInt64} {opcode : List UInt8} {w : Width} {o : Operation}
    (h : BranchEncoding target opcode w o) : o.target? = some target := by
  cases h <;> rfl

/-- **Other places.** What is decoded at `rip'` is what is decoded at `rip`, moved. -/
theorem decode_eq_moveTo (rip rip' : UInt64) (bs : List UInt8) :
    decode rip' bs = ((decode rip bs).map (·.moveTo rip')).mapError (·.moveTo rip') := by
  rcases missing_or_reads bs with hmissing | ⟨used, s, result, rfl, hlen, hreads, -⟩
  · rw [decode_of_missing rip hmissing, decode_of_missing rip' hmissing]
    rfl
  · rw [decode_of_reads rip hreads hlen, decode_of_reads rip' hreads hlen]
    cases result with
    | ok o =>
      have hend : rip' - rip + (rip + UInt64.ofNat used.length) = rip' + UInt64.ofNat used.length := by
        rw [← UInt64.add_assoc, UInt64.sub_add_cancel]
      show Except.ok (Instruction.mk rip' _ _) = .ok (Instruction.mk rip' _ _)
      rw [Operation.relocate_relocate, hend]
    | error refusal => rfl

/-! ### Reading branches -/

/-- If a branch was read from `code`, then with its whole displacement, and `rest` is what is left. -/
def BranchRead (code rest : List UInt8) (o : Operation) : Prop :=
  ∀ distance, o.target? = some distance → ∃ opcode displacement w,
    code = opcode ++ displacement ++ rest ∧ displacement.length = w.bytes ∧
    BranchEncoding distance opcode w o ∧
    (distance.toNat : Int) ≡ LittleEndian.signed displacement [ZMOD 2 ^ 64]

/-- The operation is no relative branch. -/
def Operation.NoTarget (o : Operation) : Prop :=
  o.target? = none

/-- There is nothing to show for an operation without a target. -/
theorem Operation.NoTarget.branchRead {o : Operation} (h : o.NoTarget) (code rest : List UInt8) :
    BranchRead code rest o :=
  fun _ htarget => nomatch h.symm.trans htarget

/-- A reader that never reads a branch need not be looked at. -/
theorem Reader.Ensures.onBranchRead {r : Reader Operation} (h : r.Ensures Operation.NoTarget)
    (code bs : List UInt8) : r.On bs fun o rest => BranchRead code rest o :=
  fun _ rest hparse => (h.value hparse).branchRead code rest

/-- A displacement is a signed number of all bytes that are read for it. -/
theorem Reader.on_displacement {w : Width} (hw : w ≠ .w64) (bs : List UInt8) :
    (immediate w).On bs fun v rest => ∃ displacement, bs = displacement ++ rest ∧
      displacement.length = w.bytes ∧ (v.toNat : Int) ≡ LittleEndian.signed displacement [ZMOD 2 ^ 64] := by
  have hwidth : immediateWidth w = w := by
    cases w with
    | w64 => exact absurd rfl hw
    | _ => rfl
  refine (on_number (immediateWidth w).bytes bs).seq fun n rest ⟨displacement, hbs, hlen, hn⟩ => ?_
  rw [hwidth] at hlen ⊢
  refine on_pure ⟨displacement, hbs, hlen, ?_⟩
  have hsigned : w.toInt (UInt64.ofNat n) = LittleEndian.signed displacement := by
    have hmodulus : w.modulus = 256 ^ w.bytes := by cases w <;> rfl
    rw [Width.toInt, Width.toNat_ofNat, LittleEndian.signed, hlen, ← hmodulus, ← hn]
    push_cast
    exact Int.emod_bmod _ _
  rw [← hsigned]
  exact w.toNat_signExtend_modEq _

/-- A row of the tables that holds a branch. -/
theorem Reader.on_branch {branch : UInt64 → Operation} {opcode : List UInt8} {w : Width} (hw : w ≠ .w64)
    (h : ∀ distance, BranchEncoding distance opcode w (branch distance)) (bs : List UInt8) :
    (do return branch (← immediate w) : Reader Operation).On bs fun o rest =>
      BranchRead (opcode ++ bs) rest o := by
  refine (on_displacement hw bs).seq fun v rest ⟨displacement, hbs, hlen, hv⟩ => on_pure ?_
  intro distance hdistance
  obtain rfl := Option.some.inj ((h v).target?_eq.symm.trans hdistance)
  exact ⟨opcode, displacement, w, by rw [hbs, List.append_assoc], hlen, h v, hv⟩

/-! ### Everything else -/

namespace Prefixes

open Operation

variable (p : Prefixes) (op : UInt8)

/-- Arithmetic and comparisons do not branch. -/
theorem noTarget_arithOrCmp (digit : Fin 8) (dst src : Operand) (w : Width) :
    (arithOrCmp digit dst src w).NoTarget := by
  unfold arithOrCmp
  split <;> rfl

/-- The rows of arithmetic do not branch. -/
theorem noTarget_arithRow : (p.arithRow op).Ensures NoTarget := by
  unfold arithRow
  split
  · exact p.ensures_modRm.map fun _ _ => noTarget_arithOrCmp _ _ _ _
  · exact p.ensures_modRm.map fun _ _ => noTarget_arithOrCmp _ _ _ _
  · exact p.ensures_modRm.map fun _ _ => noTarget_arithOrCmp _ _ _ _
  · exact p.ensures_modRm.map fun _ _ => noTarget_arithOrCmp _ _ _ _
  · exact (ensures_immediate _).map fun _ _ => noTarget_arithOrCmp _ _ _ _
  · exact (ensures_immediate _).map fun _ _ => noTarget_arithOrCmp _ _ _ _
  · exact ensures_invalid

/-- Arithmetic with an immediate value does not branch. -/
theorem noTarget_arithGroup : (p.arithGroup op).Ensures NoTarget :=
  p.ensures_modRm.bind fun _ _ => (ensures_immediate _).map fun _ _ => noTarget_arithOrCmp _ _ _ _

/-- Tests, exchanges and moves do not branch. -/
theorem noTarget_transferRow : (p.transferRow op).Ensures NoTarget := by
  refine p.ensures_modRm.bind fun m _ => ?_
  refine Ensures.ite (fun _ => ensures_pure rfl) fun _ => ?_
  refine Ensures.ite (fun _ => ensures_pure rfl) fun _ => ?_
  exact Ensures.ite (fun _ => ensures_pure rfl) fun _ => ensures_pure rfl

/-- Exchanges with the accumulator do not branch. -/
theorem noTarget_exchangeRow : (p.exchangeRow op).NoTarget := by
  simp only [exchangeRow]
  split <;> rfl

/-- Shifts do not branch. -/
theorem noTarget_shiftGroup : (p.shiftGroup op).Ensures NoTarget := by
  refine p.ensures_modRm.bind fun m _ => ?_
  split
  · dsimp only
    refine Ensures.ite (fun _ => ?_) fun _ => Ensures.ite (fun _ => ?_) fun _ => ?_
    · rw [map_eq_pure_bind, bind_assoc]
      exact ensures_byte.bind fun n _ => ensures_pure rfl
    · exact ensures_pure rfl
    · exact ensures_pure rfl
  · exact ensures_unsupported

/-- Tests, negations, products and quotients do not branch. -/
theorem noTarget_unaryGroup : (p.unaryGroup op).Ensures NoTarget := by
  refine p.ensures_modRm.bind fun m _ => ?_
  split
  · exact (ensures_immediate _).map fun _ _ => rfl
  · exact (ensures_immediate _).map fun _ _ => rfl
  all_goals exact ensures_pure rfl

/-- Steps of a byte do not branch. -/
theorem noTarget_byteStepGroup : p.byteStepGroup.Ensures NoTarget := by
  refine p.ensures_modRm.bind fun m _ => ?_
  split
  · exact ensures_pure rfl
  · exact ensures_pure rfl
  · exact ensures_invalid

/-- Branches through operands are not relative. -/
theorem noTarget_wordGroup : p.wordGroup.Ensures NoTarget := by
  refine p.ensures_modRm.bind fun m _ => ?_
  split
  · exact ensures_pure rfl
  · exact ensures_pure rfl
  · exact ensures_pure rfl
  · exact ensures_pure rfl
  · exact ensures_pure rfl
  · exact ensures_unsupported
  · exact ensures_unsupported
  · exact ensures_invalid

/-- The computation of an address does not branch. -/
theorem noTarget_loadAddress : p.loadAddress.Ensures NoTarget := by
  refine p.ensures_modRm.bind fun m _ => ?_
  split
  · exact ensures_pure rfl
  · exact ensures_invalid

/-- **Primary opcodes.** -/
theorem branchRead_primary (bs : List UInt8) :
    (p.primary op).On bs fun o rest => BranchRead (op :: bs) rest o := by
  have hplain : ∀ {r : Reader Operation}, r.Ensures NoTarget →
      r.On bs fun o rest => BranchRead (op :: bs) rest o := fun h => h.onBranchRead _ _
  have himmediate : ∀ {f : UInt64 → Operation} (w : Width), (∀ v, (f v).NoTarget) →
      (do return f (← immediate w) : Reader Operation).On bs fun o rest => BranchRead (op :: bs) rest o :=
    fun w hf => hplain ((ensures_immediate w).map fun v _ => hf v)
  have hpure : ∀ {o : Operation}, o.NoTarget →
      (pure o : Reader Operation).On bs fun o rest => BranchRead (op :: bs) rest o :=
    fun ho => hplain (ensures_pure ho)
  unfold primary
  -- one step for each line of the table of opcodes, in its order
  refine On.ite (fun _ => hplain (p.noTarget_arithRow op)) fun _ => ?_
  refine On.ite (fun _ => hpure rfl) fun _ => On.ite (fun _ => hpure rfl) fun _ => ?_
  refine On.ite (fun _ => hplain (p.ensures_modRm.map fun _ _ => rfl)) fun _ => ?_
  refine On.ite (fun _ => himmediate _ fun _ => rfl) fun _ => ?_
  refine On.ite (fun _ => himmediate _ fun _ => rfl) fun _ => ?_
  refine On.ite (fun _ => ?_) fun _ => ?_
  · exact hplain (p.ensures_modRm.bind fun _ _ => (ensures_immediate _).map fun _ _ => rfl)
  refine On.ite (fun hop => ?_) fun _ => ?_
  · exact on_branch (by decide) (fun _ => .jccShort hop) bs
  refine On.ite (fun _ => hplain (p.noTarget_arithGroup op)) fun _ => ?_
  refine On.ite (fun _ => hplain (p.noTarget_transferRow op)) fun _ => ?_
  refine On.ite (fun _ => hplain p.noTarget_loadAddress) fun _ => ?_
  refine On.ite (fun _ => ?_) fun _ => ?_
  · exact hplain (p.ensures_modRm.bind fun _ _ =>
      Ensures.ite (fun _ => ensures_pure rfl) fun _ => ensures_unsupported)
  refine On.ite (fun _ => hpure (p.noTarget_exchangeRow op)) fun _ => ?_
  refine On.ite (fun _ => hpure rfl) fun _ => On.ite (fun _ => hpure rfl) fun _ => ?_
  refine On.ite (fun _ => hpure rfl) fun _ => ?_
  refine On.ite (fun _ => himmediate _ fun _ => rfl) fun _ => ?_
  refine On.ite (fun _ => hplain ((ensures_number _).map fun _ _ => rfl)) fun _ => ?_
  refine On.ite (fun _ => hplain (p.noTarget_shiftGroup op)) fun _ => ?_
  refine On.ite (fun _ => hplain ((ensures_number 2).map fun _ _ => rfl)) fun _ => ?_
  refine On.ite (fun _ => hpure rfl) fun _ => ?_
  refine On.ite (fun _ => ?_) fun _ => ?_
  · exact hplain (p.ensures_modRm.bind fun _ _ =>
      Ensures.ite (fun _ => (ensures_immediate _).map fun _ _ => rfl) fun _ => ensures_unsupported)
  refine On.ite (fun hop => ?_) fun _ => ?_
  · exact hop ▸ on_branch (by decide) (fun _ => .call) bs
  refine On.ite (fun hop => ?_) fun _ => ?_
  · exact hop ▸ on_branch (by decide) (fun _ => .jmpNear) bs
  refine On.ite (fun hop => ?_) fun _ => ?_
  · exact hop ▸ on_branch (by decide) (fun _ => .jmpShort) bs
  refine On.ite (fun _ => hpure rfl) fun _ => On.ite (fun _ => hpure rfl) fun _ => ?_
  refine On.ite (fun _ => hplain (p.noTarget_unaryGroup op)) fun _ => ?_
  refine On.ite (fun _ => hpure rfl) fun _ => On.ite (fun _ => hpure rfl) fun _ => ?_
  refine On.ite (fun _ => hpure rfl) fun _ => On.ite (fun _ => hpure rfl) fun _ => ?_
  refine On.ite (fun _ => hplain p.noTarget_byteStepGroup) fun _ => ?_
  refine On.ite (fun _ => hplain p.noTarget_wordGroup) fun _ => ?_
  exact On.ite (fun _ => on_throw _) fun _ => on_throw _

/-! ### The opcodes behind `0x0f` -/

/-- Vector operations do not branch. -/
theorem noTarget_sseLoad (sseOp : SseOp) : (p.sseLoad sseOp).Ensures NoTarget :=
  p.ensures_modRm.map fun _ _ => rfl

/-- Vector stores do not branch. -/
theorem noTarget_sseStore (sseOp : SseOp) : (p.sseStore sseOp).Ensures NoTarget :=
  p.ensures_modRm.map fun _ _ => rfl

/-- The conversion from an integer does not branch. -/
theorem noTarget_convertOfInteger : p.convertOfInteger.Ensures NoTarget := by
  unfold convertOfInteger
  split
  · exact p.ensures_modRm.map fun _ _ => rfl
  · exact ensures_unsupported

/-- The conversion to an integer does not branch. -/
theorem noTarget_convertToInteger : p.convertToInteger.Ensures NoTarget := by
  unfold convertToInteger
  split
  · exact p.ensures_modRm.map fun _ _ => rfl
  · exact ensures_unsupported

/-- The conversion between precisions does not branch. -/
theorem noTarget_convertPrecision : p.convertPrecision.Ensures NoTarget := by
  unfold convertPrecision
  split
  · exact p.noTarget_sseLoad .widen
  · exact p.noTarget_sseLoad .narrow
  · exact ensures_unsupported

/-- Moves out of a vector register do not branch. -/
theorem noTarget_moveOut : p.moveOut.Ensures NoTarget := by
  unfold moveOut
  split
  · exact p.ensures_modRm.map fun _ _ => rfl
  · exact p.noTarget_sseLoad .movq
  · exact ensures_unsupported

/-- Shifts of vector registers do not branch. -/
theorem noTarget_vectorShiftGroup : (p.vectorShiftGroup op).Ensures NoTarget := by
  refine Ensures.ite (fun _ => ensures_unsupported) fun _ => p.ensures_modRm.bind fun m _ => ?_
  split
  · exact ensures_invalid
  · split
    · exact ensures_byte.map fun _ _ => rfl
    · exact ensures_invalid

/-- The collection of sign bits does not branch. -/
theorem noTarget_moveMask : p.moveMask.Ensures NoTarget := by
  refine Ensures.ite (fun _ => ensures_unsupported) fun _ => p.ensures_modRm.bind fun m _ => ?_
  split
  · exact ensures_invalid
  · exact ensures_pure rfl

/-- Extensions do not branch. -/
theorem noTarget_extendingMove : (p.extendingMove op).Ensures NoTarget :=
  p.ensures_modRm.bind fun _ _ => Ensures.ite (fun _ => ensures_pure rfl) fun _ => ensures_pure rfl

/-- **Secondary opcodes.** -/
theorem branchRead_secondary (bs : List UInt8) :
    (p.secondary op).On bs fun o rest => BranchRead (0x0f :: op :: bs) rest o := by
  have hplain : ∀ {r : Reader Operation}, r.Ensures NoTarget →
      r.On bs fun o rest => BranchRead (0x0f :: op :: bs) rest o := fun h => h.onBranchRead _ _
  have hpure : ∀ {o : Operation}, o.NoTarget →
      (pure o : Reader Operation).On bs fun o rest => BranchRead (0x0f :: op :: bs) rest o :=
    fun ho => hplain (ensures_pure ho)
  have hload := fun sseOp => hplain (p.noTarget_sseLoad sseOp)
  have hstore := fun sseOp => hplain (p.noTarget_sseStore sseOp)
  unfold secondary
  -- one step for each line of the table of opcodes, in its order
  refine On.ite (fun _ => hpure rfl) fun _ => On.ite (fun _ => hpure rfl) fun _ => ?_
  refine On.ite (fun _ => hload _) fun _ => On.ite (fun _ => hstore _) fun _ => ?_
  refine On.ite (fun _ => hplain (p.ensures_modRm.map fun _ _ => rfl)) fun _ => ?_
  refine On.ite (fun _ => ?_) fun _ => ?_
  · split
    · exact hload _
    · exact on_throw _
  refine On.ite (fun _ => ?_) fun _ => ?_
  · split
    · exact hstore _
    · exact on_throw _
  refine On.ite (fun _ => hplain p.noTarget_convertOfInteger) fun _ => ?_
  refine On.ite (fun _ => hplain p.noTarget_convertToInteger) fun _ => ?_
  refine On.ite (fun _ => ?_) fun _ => ?_
  · split
    · exact hload _
    · exact on_throw _
  refine On.ite (fun _ => hplain (p.ensures_modRm.map fun _ _ => rfl)) fun _ => ?_
  refine On.ite (fun _ => ?_) fun _ => ?_
  · split
    · exact hload _
    · exact on_throw _
  refine On.ite (fun _ => ?_) fun _ => ?_
  · split
    · exact hload _
    · exact on_throw _
  refine On.ite (fun _ => hplain p.noTarget_convertPrecision) fun _ => ?_
  refine On.ite (fun _ => ?_) fun _ => ?_
  · exact On.ite (fun _ => hplain (p.ensures_modRm.map fun _ _ => rfl)) fun _ => on_throw _
  refine On.ite (fun _ => ?_) fun _ => ?_
  · split
    · exact hload _
    · exact on_throw _
  refine On.ite (fun _ => hplain (p.noTarget_vectorShiftGroup op)) fun _ => ?_
  refine On.ite (fun _ => hplain p.noTarget_moveOut) fun _ => ?_
  refine On.ite (fun _ => ?_) fun _ => ?_
  · split
    · exact hstore _
    · exact on_throw _
  refine On.ite (fun hop => ?_) fun _ => ?_
  · exact on_branch (by decide) (fun _ => .jccNear hop) bs
  refine On.ite (fun _ => hplain (p.ensures_modRm.map fun _ _ => rfl)) fun _ => ?_
  refine On.ite (fun _ => hplain (p.ensures_modRm.map fun _ _ => rfl)) fun _ => ?_
  refine On.ite (fun _ => hplain (p.noTarget_extendingMove op)) fun _ => ?_
  refine On.ite (fun _ => On.ite (fun _ => hstore _) fun _ => on_throw _) fun _ => ?_
  refine On.ite (fun _ => hplain p.noTarget_moveMask) fun _ => ?_
  refine On.ite (fun _ => on_throw _) fun _ => ?_
  split
  · exact On.ite (fun _ => hload _) fun _ => on_throw _
  · exact on_throw _

/-! ### The VEX encoding -/

/-- VEX moves do not branch. -/
theorem noTarget_vexMove (f : VexFields) : (p.vexMove f op).Ensures NoTarget := by
  refine Ensures.ite (fun _ => ensures_invalid) fun _ => p.ensures_modRm.bind fun m _ => ?_
  exact Ensures.ite (fun _ => ensures_pure rfl) fun _ => ensures_pure rfl

/-- **VEX.** No branch is encoded with VEX. -/
theorem noTarget_vex : (p.vex op).Ensures NoTarget := by
  refine Ensures.ite (fun _ => ensures_invalid) fun _ => ?_
  extract_lets body
  have hbody : ∀ f, (body f).Ensures NoTarget := by
    intro f
    refine Ensures.ite (fun _ => ensures_unsupported) fun _ => ensures_byte.bind fun second _ => ?_
    refine Ensures.ite (fun _ => ?_) fun _ => ?_
    · refine Ensures.ite (fun _ => ensures_unsupported) fun _ => ?_
      exact Ensures.ite (fun _ => ensures_invalid) fun _ => ensures_pure rfl
    refine Ensures.ite (fun _ => noTarget_vexMove _ second f) fun _ => ?_
    refine Ensures.ite (fun _ => (ensures_modRm _).map fun _ _ => rfl) fun _ => ?_
    exact Ensures.ite (fun _ => (ensures_modRm _).map fun _ _ => rfl) fun _ => ensures_unsupported
  refine Ensures.ite (fun _ => ?_) fun _ => ?_
  · exact VexFields.ensures_readShort.bind fun f _ => hbody f
  · exact VexFields.ensures_readLong.bind fun f _ => hbody f

end Prefixes

/-- Behind the prefixes a branch is an opcode and a displacement. -/
theorem Reader.branchRead_body (p : Prefixes) (op : UInt8) (bs : List UInt8) :
    (body p op).On bs fun o rest => BranchRead (op :: bs) rest o := by
  refine On.ite (fun _ => (p.noTarget_vex op).onBranchRead _ _) fun _ => ?_
  refine On.ite (fun hsecond => on_byte_bind ?_) fun _ => p.branchRead_primary op bs
  rintro second rest rfl
  exact hsecond ▸ p.branchRead_secondary second rest

/-! ### Decoding -/

/-- A branch is read behind prefixes. -/
theorem Reader.branchRead_operation (bs : List UInt8) :
    operation.On bs fun o rest => ∃ run code, bs = run ++ code ∧
      (∀ b ∈ run, isPrefixByte b = true) ∧ BranchRead code rest o := by
  refine (Prefixes.on_read bs).seq fun ⟨p, op⟩ rest ⟨_, hcode⟩ => ?_
  refine (branchRead_body p op rest).seq fun o rest' hread => ?_
  refine On.ite (fun _ => on_throw _) fun _ => on_pure ?_
  refine ⟨bs.takeWhile isPrefixByte, op :: rest, ?_, List.all_eq_true.mp List.all_takeWhile, hread⟩
  rw [← hcode, List.takeWhile_append_dropWhile]

/-- **Branches.** A relative branch leads as far from its end as its displacement says. -/
theorem branchesTo_of_decode {rip target : UInt64} {bs : List UInt8} {i : Instruction}
    (h : decode rip bs = .ok i) (htarget : i.operation.target? = some target) : i.BranchesTo target := by
  rcases missing_or_reads bs with hmissing | ⟨used, s, result, rfl, hlen, hreads, -⟩
  · rw [decode_of_missing rip hmissing] at h
    exact nomatch h
  · rw [decode_of_reads rip hreads hlen] at h
    cases result with
    | error refusal => exact nomatch h
    | ok o =>
      obtain rfl := Except.ok.inj h
      obtain ⟨distance, hdistance, rfl⟩ :=
        Option.map_eq_some_iff.mp ((o.target?_relocate _).symm.trans htarget)
      -- the reader wants exactly these bytes, so that nothing is left behind the displacement
      have hparse := hreads.complete []
      rw [List.append_nil] at hparse
      obtain ⟨run, code, hused, hrun, hread⟩ := branchRead_operation used o [] hparse
      obtain ⟨opcode, displacement, w, rfl, hwidth, hopcode, hsigned⟩ := hread distance hdistance
      have hbytes : (Encoding.ofBytes used).bytes = used := Encoding.bytes_ofBytes hlen
      refine ⟨run, opcode, displacement, w, ?_, hrun, hwidth, hopcode.relocate _, ?_⟩
      · rw [hbytes, hused, List.append_nil, List.append_assoc]
      · have hsize : (Encoding.ofBytes used).size = used.length := congrArg List.length hbytes
        refine toNat_eq_emod ((toNat_add_modEq _ _).trans (Int.ModEq.add ?_ hsigned))
        refine (toNat_add_modEq _ _).trans (Int.ModEq.add_left _ ?_)
        rw [Instruction.size, hsize]
        exact toNat_ofNat_modEq _

/-- **Positions.** The same bytes are the same instruction or the same error everywhere, but for the address
    and for the target of a relative branch, which is moved with them.  A relative branch leads as far from
    its end as the displacement at the end of its bytes says. -/
theorem decode_positions (bs : List UInt8) :
    (∀ rip rip', decode rip' bs = ((decode rip bs).map (·.moveTo rip')).mapError (·.moveTo rip')) ∧
      ∀ rip i target, decode rip bs = .ok i → i.operation.target? = some target →
        i.BranchesTo target :=
  ⟨fun rip rip' => decode_eq_moveTo rip rip' bs, fun _ _ _ h htarget => branchesTo_of_decode h htarget⟩

/-- `f3 75 fb` across the end of the address space: the branch goes back over the end. -/
theorem decode_positions_jne :
    let bs : List UInt8 := [0xf3, 0x75, 0xfb]
    let i : Instruction := ⟨0xfffffffffffffffe, .ofBytes bs, .jcc .ne 0xfffffffffffffffc⟩
    decode 0xfffffffffffffffe bs = .ok i ∧ i.operation.target? = some 0xfffffffffffffffc ∧
      i.BranchesTo 0xfffffffffffffffc ∧ decode 1 bs = .ok ⟨1, .ofBytes bs, .jcc .ne 0xffffffffffffffff⟩ := by
  intro bs i
  have hi : decode 0xfffffffffffffffe bs = .ok i := by decide +kernel
  have htarget : i.operation.target? = some 0xfffffffffffffffc := by decide +kernel
  have hmoved : i.moveTo 1 = ⟨1, .ofBytes bs, .jcc .ne 0xffffffffffffffff⟩ := by decide +kernel
  refine ⟨hi, htarget, (decode_positions bs).2 0xfffffffffffffffe i 0xfffffffffffffffc hi htarget, ?_⟩
  rw [(decode_positions bs).1 0xfffffffffffffffe 1, hi, ← hmoved]
  exact rfl

end Amd64
