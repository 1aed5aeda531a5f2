import Amd64.Decoder.Basic
import Amd64.Proofs.Decoder.Operands
import Amd64.Proofs.Decoder.Vex

namespace Amd64

/-!
# Where memory operands come from

Every memory operand of a decoded operation was read by `Prefixes.modRm`. What holds of the addresses that it
reads holds of all memory operands.

* `Operation.EachAddress`       — a property of the memory operands of an operation;
* `opcodeSize`, `Prefixes.Extended` — where the operand byte is, and what extends its fields;
* `Prefixes.eachAddress_primary`, `Prefixes.eachAddress_secondary`, `Prefixes.eachAddress_vex` — the tables of
  opcodes;
* `Reader.eachAddress_body`     — whatever follows the prefixes.
-/

open Reader

/-- If the operand is in memory, its address has `P`. -/
def Operand.EachAddress (P : Address → Prop) : Operand → Prop
  | mem a => P a
  | _ => True

/-- If it is a memory operand, its address has `P`. -/
def RegMem.EachAddress (P : Address → Prop) : RegMem → Prop
  | mem a => P a
  | reg _ => True

/-- All memory operands have addresses with `P`. -/
def Operation.EachAddress (P : Address → Prop) (o : Operation) : Prop :=
  ∀ x ∈ o.operands, x.EachAddress P

section
variable {P Q : Address → Prop}

/-- A property of addresses may be weakened. -/
theorem Operand.EachAddress.mono {x : Operand} (h : x.EachAddress P) (hPQ : ∀ a, P a → Q a) :
    x.EachAddress Q := by
  cases x with
  | mem a => exact hPQ a h
  | reg r => trivial
  | vec v => trivial
  | imm v => trivial

/-- A property of all addresses may be weakened. -/
theorem Operation.EachAddress.mono {o : Operation} (h : o.EachAddress P) (hPQ : ∀ a, P a → Q a) :
    o.EachAddress Q :=
  fun x hx => (h x hx).mono hPQ

@[simp] theorem Operand.eachAddress_vec (v : VecReg) : (Operand.vec v).EachAddress P := trivial

@[simp] theorem Operand.eachAddress_imm (v : UInt64) : (Operand.imm v).EachAddress P := trivial

/-- A vector operand has the address of the operand byte that it is made of. -/
@[simp] theorem eachAddress_vecOperand {size : VecSize} {rm : RegMem} :
    (vecOperand size rm).EachAddress P ↔ rm.EachAddress P := by
  cases rm <;> exact Iff.rfl

@[simp] theorem Prefixes.eachAddress_regOperand (p : Prefixes) (code : Fin 16) (w : Width) :
    (p.regOperand code w).EachAddress P := trivial

/-- An operand has the address of the operand byte that it is made of. -/
@[simp] theorem Prefixes.eachAddress_operand {p : Prefixes} {rm : RegMem} {w : Width} :
    (p.operand rm w).EachAddress P ↔ rm.EachAddress P := by
  cases rm <;> exact Iff.rfl

namespace Operation

theorem eachAddress_nil {o : Operation} (ho : o.operands = []) : o.EachAddress P := by
  simp [EachAddress, ho]

theorem eachAddress_single {o : Operation} {x : Operand} (ho : o.operands = [x])
    (hx : x.EachAddress P) : o.EachAddress P := by
  simpa [EachAddress, ho] using hx

theorem eachAddress_pair {o : Operation} {x y : Operand} (ho : o.operands = [x, y])
    (hx : x.EachAddress P) (hy : y.EachAddress P) : o.EachAddress P := by
  simpa [EachAddress, ho] using ⟨hx, hy⟩

/-- The target of a branch is no operand. -/
theorem EachAddress.relocate {o : Operation} (h : o.EachAddress P) (origin : UInt64) :
    (o.relocate origin).EachAddress P := by
  unfold Operation.relocate
  split <;> exact h

end Operation

end

/-! ### The bytes behind the prefixes -/

/-- Number of bytes of the opcode that begins with `op`, with the fields of VEX. -/
def opcodeSize (op : UInt8) : Nat :=
  if op = 0xc4 then 4 else if op = 0xc5 then 3 else if op = 0x0f then 2 else 1

/-- The bit that extends a field of an operand byte. The byte behind `0xc4` holds it inverted in `vexBit`. -/
def extensionBit (rex : Bool) (vexBit : UInt8) (code : List UInt8) : Bool :=
  if code.headD 0 = 0xc4 then code.getD 1 0 &&& vexBit = 0 else if code.headD 0 = 0xc5 then false else rex

/-- With `q`, an operand byte behind the opcode of `code` is read if the prefixes are `p`. -/
structure Prefixes.Extended (p : Prefixes) (code : List UInt8) (q : Prefixes) : Prop where
  narrow : q.narrow = p.narrow
  segment : q.segment = p.segment
  index : q.extension.x = extensionBit p.extension.x 0x40 code
  base : q.extension.b = extensionBit p.extension.b 0x20 code

/-- The short form does not extend the fields of an address. -/
theorem VexFields.on_readShort (bs : List UInt8) : readShort.On bs fun f rest =>
    ∃ b, bs = b :: rest ∧ f.extension.x = false ∧ f.extension.b = false :=
  on_byte_bind fun b _ hbs => on_pure ⟨b, hbs, rfl, rfl⟩

/-- The long form extends them by bits that are stored inverted. -/
theorem VexFields.on_readLong (bs : List UInt8) : readLong.On bs fun f rest =>
    ∃ b c, bs = b :: c :: rest ∧ f.extension.x = decide (b &&& 0x40 = 0) ∧
      f.extension.b = decide (b &&& 0x20 = 0) :=
  on_byte_bind fun b _ hbs => on_byte_bind fun c _ hcs => on_pure ⟨b, c, hcs ▸ hbs, rfl, rfl⟩

namespace Prefixes

open Operation

variable {P : Address → Prop} (p : Prefixes) (op : UInt8)

/-! ### Primary opcodes -/

section
variable {bs : List UInt8} (h : p.modRm.On bs fun m _ => m.rm.EachAddress P)

/-- Arithmetic and comparisons have the two operands that they are given. -/
theorem eachAddress_arithOrCmp (digit : Fin 8) {dst src : Operand} (hd : dst.EachAddress P)
    (hs : src.EachAddress P) (w : Width) : (arithOrCmp digit dst src w).EachAddress P := by
  unfold arithOrCmp
  split <;> exact eachAddress_pair rfl hd hs

include h

/-- The rows of arithmetic: one operand byte, in either direction, or the accumulator. -/
theorem eachAddress_arithRow : (p.arithRow op).On bs fun o _ => o.EachAddress P := by
  unfold arithRow
  split
  · exact h.map fun m hm => eachAddress_arithOrCmp _ (by simpa using hm) (by simp) _
  · exact h.map fun m hm => eachAddress_arithOrCmp _ (by simpa using hm) (by simp) _
  · exact h.map fun m hm => eachAddress_arithOrCmp _ (by simp) (by simpa using hm) _
  · exact h.map fun m hm => eachAddress_arithOrCmp _ (by simp) (by simpa using hm) _
  · exact ((ensures_immediate _).on _).map fun imm _ =>
      eachAddress_arithOrCmp _ (p.eachAddress_regOperand _ _) (Operand.eachAddress_imm imm) _
  · exact ((ensures_immediate _).on _).map fun imm _ =>
      eachAddress_arithOrCmp _ (p.eachAddress_regOperand _ _) (Operand.eachAddress_imm imm) _
  · exact on_throw _

/-- Arithmetic with an immediate value. -/
theorem eachAddress_arithGroup : (p.arithGroup op).On bs fun o _ => o.EachAddress P :=
  h.bind fun m hm => (ensures_immediate _).map fun imm _ =>
    eachAddress_arithOrCmp _ (eachAddress_operand.mpr hm) (by simp) _

/-- Tests, exchanges and moves between a register and an operand. -/
theorem eachAddress_transferRow : (p.transferRow op).On bs fun o _ => o.EachAddress P := by
  refine h.bind fun m hm => ?_
  have hrm := (eachAddress_operand (p := p) (w := p.widthOf op)).mpr hm
  refine Ensures.ite (fun _ => ensures_pure (eachAddress_pair rfl hrm trivial)) fun _ => ?_
  refine Ensures.ite (fun _ => ensures_pure (eachAddress_pair rfl hrm trivial)) fun _ => ?_
  refine Ensures.ite (fun _ => ensures_pure (eachAddress_pair rfl hrm trivial)) fun _ => ?_
  exact ensures_pure (eachAddress_pair rfl trivial hrm)

omit h in
/-- Exchanges with the accumulator have registers only. -/
theorem eachAddress_exchangeRow : (p.exchangeRow op).EachAddress P := by
  simp only [exchangeRow]
  split
  · exact eachAddress_nil rfl
  · exact eachAddress_pair rfl trivial trivial

/-- The count of a shift is no operand in memory. -/
theorem eachAddress_shiftGroup : (p.shiftGroup op).On bs fun o _ => o.EachAddress P := by
  refine h.bind fun m hm => ?_
  have hshift : ∀ (shift : ShiftOp) (count : ShiftCount),
      (Operation.shift shift (p.operand m.rm (p.widthOf op)) count (p.widthOf op)).EachAddress P :=
    fun _ _ => eachAddress_single rfl (eachAddress_operand.mpr hm)
  split
  · next shift _ =>
    -- wherever the count comes from, it is no operand
    dsimp only
    refine Ensures.ite (fun _ => ?_) fun _ => Ensures.ite (fun _ => ?_) fun _ => ?_
    · rw [map_eq_pure_bind, bind_assoc]
      exact ensures_byte.bind fun n _ => ensures_pure (hshift shift (.imm n))
    · exact ensures_pure (hshift shift (.imm 1))
    · exact ensures_pure (hshift shift .cl)
  · exact ensures_unsupported

/-- Tests, negations, products and quotients. -/
theorem eachAddress_unaryGroup : (p.unaryGroup op).On bs fun o _ => o.EachAddress P := by
  refine h.bind fun m hm => ?_
  have hrm := (eachAddress_operand (p := p) (w := p.widthOf op)).mpr hm
  split
  · exact (ensures_immediate _).map fun imm _ => eachAddress_pair rfl hrm trivial
  · exact (ensures_immediate _).map fun imm _ => eachAddress_pair rfl hrm trivial
  all_goals exact ensures_pure (eachAddress_single rfl hrm)

/-- Steps of a byte. -/
theorem eachAddress_byteStepGroup : p.byteStepGroup.On bs fun o _ => o.EachAddress P := by
  refine h.bind fun m hm => ?_
  have hrm := (eachAddress_operand (p := p) (w := .w8)).mpr hm
  split
  · exact ensures_pure (eachAddress_single rfl hrm)
  · exact ensures_pure (eachAddress_single rfl hrm)
  · exact ensures_invalid

/-- Steps, indirect branches and push. -/
theorem eachAddress_wordGroup : p.wordGroup.On bs fun o _ => o.EachAddress P := by
  refine h.bind fun m hm => ?_
  have hrm : ∀ w, (p.operand m.rm w).EachAddress P := fun _ => eachAddress_operand.mpr hm
  split
  · exact ensures_pure (eachAddress_single rfl (hrm p.width))
  · exact ensures_pure (eachAddress_single rfl (hrm p.width))
  · exact ensures_pure (eachAddress_single rfl (hrm .w64))
  · exact ensures_pure (eachAddress_single rfl (hrm .w64))
  · exact ensures_pure (eachAddress_single rfl (hrm p.stackWidth))
  · exact ensures_unsupported
  · exact ensures_unsupported
  · exact ensures_invalid

/-- Sign extension reads one operand byte. -/
theorem eachAddress_signExtendDword : p.signExtendDword.On bs fun o _ => o.EachAddress P :=
  h.map fun _ hm => eachAddress_pair rfl trivial (eachAddress_operand.mpr hm)

/-- A product with an immediate value reads one operand byte. -/
theorem eachAddress_imulImmediate : (p.imulImmediate op).On bs fun o _ => o.EachAddress P :=
  h.bind fun _ hm => (ensures_immediate _).map fun _ _ =>
    eachAddress_pair rfl trivial (eachAddress_operand.mpr hm)

/-- The address that is computed is an operand, although nothing is read from it. -/
theorem eachAddress_loadAddress : p.loadAddress.On bs fun o _ => o.EachAddress P := by
  refine h.bind fun m hm => ?_
  split
  · next a ha =>
    rw [ha] at hm
    exact ensures_pure (eachAddress_pair (y := .mem a) rfl trivial hm)
  · exact ensures_invalid

/-- The pop into an operand. -/
theorem eachAddress_popGroup : p.popGroup.On bs fun o _ => o.EachAddress P :=
  h.bind fun _ hm => Ensures.ite
    (fun _ => ensures_pure (eachAddress_single rfl (eachAddress_operand.mpr hm)))
    fun _ => ensures_unsupported

/-- The move of an immediate value into an operand. -/
theorem eachAddress_movGroup : (p.movGroup op).On bs fun o _ => o.EachAddress P :=
  h.bind fun _ hm => Ensures.ite
    (fun _ => (ensures_immediate _).map fun _ _ =>
      eachAddress_pair rfl (eachAddress_operand.mpr hm) trivial)
    fun _ => ensures_unsupported

/-- **Primary opcodes.** -/
theorem eachAddress_primary : (p.primary op).On bs fun o _ => o.EachAddress P := by
  have hnil : ∀ {o : Operation}, o.operands = [] →
      (pure o : Reader Operation).On bs fun o _ => o.EachAddress P :=
    fun ho => on_pure (eachAddress_nil ho)
  unfold primary
  -- one step for each line of the table of opcodes, in its order
  refine On.ite (fun _ => p.eachAddress_arithRow op h) fun _ => ?_
  refine On.ite (fun _ => on_pure (eachAddress_single rfl trivial)) fun _ => ?_
  refine On.ite (fun _ => on_pure (eachAddress_single rfl trivial)) fun _ => ?_
  refine On.ite (fun _ => p.eachAddress_signExtendDword h) fun _ => ?_
  refine On.ite (fun _ => ?_) fun _ => ?_
  · exact ((ensures_immediate _).on _).map fun _ _ => eachAddress_single rfl trivial
  refine On.ite (fun _ => ?_) fun _ => ?_
  · exact ((ensures_immediate _).on _).map fun _ _ => eachAddress_single rfl trivial
  refine On.ite (fun _ => p.eachAddress_imulImmediate op h) fun _ => ?_
  refine On.ite (fun _ => ((ensures_immediate _).on _).map fun _ _ => eachAddress_nil rfl) fun _ => ?_
  refine On.ite (fun _ => p.eachAddress_arithGroup op h) fun _ => ?_
  refine On.ite (fun _ => p.eachAddress_transferRow op h) fun _ => ?_
  refine On.ite (fun _ => p.eachAddress_loadAddress h) fun _ => ?_
  refine On.ite (fun _ => p.eachAddress_popGroup h) fun _ => ?_
  refine On.ite (fun _ => on_pure (p.eachAddress_exchangeRow op)) fun _ => ?_
  refine On.ite (fun _ => hnil rfl) fun _ => On.ite (fun _ => hnil rfl) fun _ => ?_
  refine On.ite (fun _ => hnil rfl) fun _ => On.ite (fun _ => ?_) fun _ => ?_
  · exact ((ensures_immediate _).on _).map fun _ _ => eachAddress_pair rfl trivial trivial
  refine On.ite (fun _ => ?_) fun _ => ?_
  · exact ((ensures_number _).on _).map fun _ _ => eachAddress_pair rfl trivial trivial
  refine On.ite (fun _ => p.eachAddress_shiftGroup op h) fun _ => ?_
  refine On.ite (fun _ => ((ensures_number 2).on _).map fun _ _ => eachAddress_nil rfl) fun _ => ?_
  refine On.ite (fun _ => hnil rfl) fun _ => ?_
  refine On.ite (fun _ => p.eachAddress_movGroup op h) fun _ => ?_
  refine On.ite (fun _ => ((ensures_immediate _).on _).map fun _ _ => eachAddress_nil rfl) fun _ => ?_
  refine On.ite (fun _ => ((ensures_immediate _).on _).map fun _ _ => eachAddress_nil rfl) fun _ => ?_
  refine On.ite (fun _ => ((ensures_immediate _).on _).map fun _ _ => eachAddress_nil rfl) fun _ => ?_
  refine On.ite (fun _ => hnil rfl) fun _ => On.ite (fun _ => hnil rfl) fun _ => ?_
  refine On.ite (fun _ => p.eachAddress_unaryGroup op h) fun _ => ?_
  refine On.ite (fun _ => hnil rfl) fun _ => On.ite (fun _ => hnil rfl) fun _ => ?_
  refine On.ite (fun _ => hnil rfl) fun _ => On.ite (fun _ => hnil rfl) fun _ => ?_
  refine On.ite (fun _ => p.eachAddress_byteStepGroup h) fun _ => ?_
  refine On.ite (fun _ => p.eachAddress_wordGroup h) fun _ => ?_
  exact On.ite (fun _ => on_throw _) fun _ => on_throw _

/-! ### Secondary opcodes -/

/-- The source of a vector operation comes from the operand byte. -/
theorem eachAddress_sseLoad (sseOp : SseOp) : (p.sseLoad sseOp).On bs fun o _ => o.EachAddress P :=
  h.map fun _ hm => eachAddress_pair rfl trivial (eachAddress_vecOperand.mpr hm)

/-- The destination of a vector store comes from the operand byte. -/
theorem eachAddress_sseStore (sseOp : SseOp) : (p.sseStore sseOp).On bs fun o _ => o.EachAddress P :=
  h.map fun _ hm => eachAddress_pair rfl (eachAddress_vecOperand.mpr hm) trivial

/-- A mandatory prefix only decides whether the operand byte is read. -/
theorem eachAddress_sse66 (sseOp : SseOp) : (p.sse66 sseOp).On bs fun o _ => o.EachAddress P :=
  On.ite (fun _ => p.eachAddress_sseLoad h sseOp) fun _ => on_throw _

/-- The conversion from an integer. -/
theorem eachAddress_convertOfInteger : p.convertOfInteger.On bs fun o _ => o.EachAddress P := by
  unfold convertOfInteger
  split
  · exact h.map fun _ hm => eachAddress_pair rfl trivial (eachAddress_operand.mpr hm)
  · exact on_throw _

/-- The conversion to an integer. -/
theorem eachAddress_convertToInteger : p.convertToInteger.On bs fun o _ => o.EachAddress P := by
  unfold convertToInteger
  split
  · exact h.map fun _ hm => eachAddress_pair rfl trivial (eachAddress_vecOperand.mpr hm)
  · exact on_throw _

/-- The conversion between precisions. -/
theorem eachAddress_convertPrecision : p.convertPrecision.On bs fun o _ => o.EachAddress P := by
  unfold convertPrecision
  split
  · exact p.eachAddress_sseLoad h .widen
  · exact p.eachAddress_sseLoad h .narrow
  · exact on_throw _

/-- Moves out of a vector register, and the load of 64 bits with the same opcode. -/
theorem eachAddress_moveOut : p.moveOut.On bs fun o _ => o.EachAddress P := by
  unfold moveOut
  split
  · exact h.map fun _ hm => eachAddress_pair rfl (eachAddress_operand.mpr hm) trivial
  · exact p.eachAddress_sseLoad h .movq
  · exact on_throw _

/-- Moves into a vector register. -/
theorem eachAddress_moveIn : p.moveIn.On bs fun o _ => o.EachAddress P :=
  On.ite (fun _ => h.map fun _ hm => eachAddress_pair rfl trivial (eachAddress_operand.mpr hm))
    fun _ => on_throw _

/-- Shifts by an immediate count work on registers only. -/
theorem eachAddress_vectorShiftGroup : (p.vectorShiftGroup op).On bs fun o _ => o.EachAddress P := by
  refine On.ite (fun _ => on_throw _) fun _ => h.bind fun m _ => ?_
  split
  · exact ensures_invalid
  · split
    · exact ensures_byte.map fun _ _ => eachAddress_pair rfl trivial trivial
    · exact ensures_invalid

/-- The sign bits are collected from registers only. -/
theorem eachAddress_moveMask : p.moveMask.On bs fun o _ => o.EachAddress P := by
  refine On.ite (fun _ => on_throw _) fun _ => h.bind fun m _ => ?_
  split
  · exact ensures_invalid
  · exact ensures_pure (eachAddress_pair rfl trivial trivial)

/-- Extensions of bytes and 16-bit words. -/
theorem eachAddress_extendingMove : (p.extendingMove op).On bs fun o _ => o.EachAddress P := by
  refine h.bind fun m hm => ?_
  refine Ensures.ite (fun _ => ensures_pure ?_) fun _ => ensures_pure ?_
  · exact eachAddress_pair rfl trivial (eachAddress_operand.mpr hm)
  · exact eachAddress_pair rfl trivial (eachAddress_operand.mpr hm)

/-- **Secondary opcodes.** -/
theorem eachAddress_secondary : (p.secondary op).On bs fun o _ => o.EachAddress P := by
  have hload := p.eachAddress_sseLoad h
  have hstore := p.eachAddress_sseStore h
  have hnil : ∀ {o : Operation}, o.operands = [] →
      (pure o : Reader Operation).On bs fun o _ => o.EachAddress P :=
    fun ho => on_pure (eachAddress_nil ho)
  unfold secondary
  -- one step for each line of the table of opcodes, in its order
  refine On.ite (fun _ => hnil rfl) fun _ => On.ite (fun _ => hnil rfl) fun _ => ?_
  refine On.ite (fun _ => hload _) fun _ => On.ite (fun _ => hstore _) fun _ => ?_
  refine On.ite (fun _ => h.map fun _ _ => eachAddress_nil rfl) fun _ => ?_
  refine On.ite (fun _ => ?_) fun _ => ?_
  · split
    · exact hload _
    · exact on_throw _
  refine On.ite (fun _ => ?_) fun _ => ?_
  · split
    · exact hstore _
    · exact on_throw _
  refine On.ite (fun _ => p.eachAddress_convertOfInteger h) fun _ => ?_
  refine On.ite (fun _ => p.eachAddress_convertToInteger h) fun _ => ?_
  refine On.ite (fun _ => ?_) fun _ => ?_
  · split
    · exact hload _
    · exact on_throw _
  refine On.ite (fun _ => ?_) fun _ => ?_
  · exact h.map fun _ hm => eachAddress_pair rfl trivial (eachAddress_operand.mpr hm)
  refine On.ite (fun _ => ?_) fun _ => ?_
  · split
    · exact hload _
    · exact on_throw _
  refine On.ite (fun _ => ?_) fun _ => ?_
  · split
    · exact hload _
    · exact on_throw _
  refine On.ite (fun _ => p.eachAddress_convertPrecision h) fun _ => ?_
  refine On.ite (fun _ => p.eachAddress_moveIn h) fun _ => ?_
  refine On.ite (fun _ => ?_) fun _ => ?_
  · split
    · exact hload _
    · exact on_throw _
  refine On.ite (fun _ => p.eachAddress_vectorShiftGroup op h) fun _ => ?_
  refine On.ite (fun _ => p.eachAddress_moveOut h) fun _ => ?_
  refine On.ite (fun _ => ?_) fun _ => ?_
  · split
    · exact hstore _
    · exact on_throw _
  refine On.ite (fun _ => ((ensures_immediate _).on _).map fun _ _ => eachAddress_nil rfl) fun _ => ?_
  refine On.ite (fun _ => ?_) fun _ => ?_
  · exact h.map fun _ hm => eachAddress_single rfl (eachAddress_operand.mpr hm)
  refine On.ite (fun _ => ?_) fun _ => ?_
  · exact h.map fun _ hm => eachAddress_pair rfl trivial (eachAddress_operand.mpr hm)
  refine On.ite (fun _ => p.eachAddress_extendingMove op h) fun _ => ?_
  refine On.ite (fun _ => ?_) fun _ => ?_
  · exact On.ite (fun _ => hstore .movq) fun _ => on_throw _
  refine On.ite (fun _ => p.eachAddress_moveMask h) fun _ => ?_
  refine On.ite (fun _ => on_throw _) fun _ => ?_
  split
  · exact p.eachAddress_sse66 h _
  · exact on_throw _

/-! ### The VEX encoding -/

/-- The unused second register of a move is no operand in memory. -/
theorem eachAddress_vexMove (f : VexFields) : (p.vexMove f op).On bs fun o _ => o.EachAddress P := by
  refine On.ite (fun _ => on_throw _) fun _ => h.bind fun m hm => ?_
  refine Ensures.ite (fun _ => ensures_pure ?_) fun _ => ensures_pure ?_
  · exact eachAddress_pair rfl trivial (eachAddress_vecOperand.mpr hm)
  · exact eachAddress_pair rfl (eachAddress_vecOperand.mpr hm) trivial

/-- Of the three operands only the last may be in memory. -/
theorem eachAddress_vexBinary (f : VexFields) (vexOp : VexOp) :
    (p.vexBinary f vexOp).On bs fun o _ => o.EachAddress P :=
  h.map fun m hm => by simpa [EachAddress, operands] using hm

end

/-- **VEX.** The fields of the encoding take the place of a REX byte. -/
theorem eachAddress_vex {first : UInt8} (hfirst : first = 0xc4 ∨ first = 0xc5) {bs : List UInt8}
    (h : ∀ q, p.Extended (first :: bs) q →
      q.modRm.On ((first :: bs).drop (opcodeSize first)) fun m _ => m.rm.EachAddress P) :
    (p.vex first).On bs fun o _ => o.EachAddress P := by
  refine On.ite (fun _ => on_throw _) fun _ => ?_
  -- what follows the fields is the same for both forms of the encoding
  extract_lets body
  have hbody : ∀ (f : VexFields) (rest : List UInt8),
      ({ p with hasRex := false, extension := f.extension } : Prefixes).modRm.On (rest.drop 1)
        (fun m _ => m.rm.EachAddress P) → (body f).On rest fun o _ => o.EachAddress P := by
    intro f rest hmodRm
    refine On.ite (fun _ => on_throw _) fun _ => on_byte_bind ?_
    rintro op rest rfl
    refine On.ite (fun _ => ?_) fun _ => ?_
    · refine On.ite (fun _ => on_throw _) fun _ => ?_
      exact On.ite (fun _ => on_throw _) fun _ => on_pure (eachAddress_nil rfl)
    refine On.ite (fun _ => eachAddress_vexMove _ op hmodRm f) fun _ => ?_
    refine On.ite (fun _ => eachAddress_vexBinary _ hmodRm f .vpxor) fun _ => ?_
    exact On.ite (fun _ => eachAddress_vexBinary _ hmodRm f .vpaddq) fun _ => on_throw _
  rcases hfirst with rfl | rfl
  · refine (VexFields.on_readLong bs).seq ?_
    rintro f rest ⟨b, c, rfl, hx, hb⟩
    exact hbody f rest (h _ ⟨rfl, rfl, hx, hb⟩)
  · refine (VexFields.on_readShort bs).seq ?_
    rintro f rest ⟨b, rfl, hx, hb⟩
    exact hbody f rest (h _ ⟨rfl, rfl, hx, hb⟩)

end Prefixes

/-- **Memory operands.** Whatever the bytes behind the prefixes are, the memory operands were read from the
    operand byte behind the opcode. -/
theorem Reader.eachAddress_body {P : Address → Prop} (p : Prefixes) (op : UInt8) {bs : List UInt8}
    (h : ∀ q, p.Extended (op :: bs) q →
      q.modRm.On ((op :: bs).drop (opcodeSize op)) fun m _ => m.rm.EachAddress P) :
    (Reader.body p op).On bs fun o _ => o.EachAddress P := by
  refine On.ite (fun hvex => p.eachAddress_vex hvex h) fun hvex => ?_
  obtain ⟨h4, h5⟩ := not_or.mp hvex
  have hrex : ∀ rex vexBit, rex = extensionBit rex vexBit (op :: bs) :=
    fun _ _ => ((if_neg h4).trans (if_neg h5)).symm
  have hself := h p ⟨rfl, rfl, hrex _ _, hrex _ _⟩
  rw [opcodeSize, if_neg h4, if_neg h5] at hself
  refine On.ite (fun hsecond => ?_) fun hsecond => ?_
  · rw [if_pos hsecond] at hself
    refine on_byte_bind ?_
    rintro second rest rfl
    exact p.eachAddress_secondary second hself
  · rw [if_neg hsecond] at hself
    exact p.eachAddress_primary op hself

end Amd64
