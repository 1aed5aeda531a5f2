import Amd64.Instruction.Basic
import Amd64.Proofs.Instruction.WellFormed
import Mathlib.Data.Nat.Digits.Defs

namespace Amd64

/-!
# How long disassembly gets

A string in a trace has less than 65536 bytes.  Disassembly stays far below that: names are short, numbers
have 64 bits, and an instruction has at most three operands.

* `utf8ByteSize_hex0x_le`, `utf8ByteSize_toString_le` — numbers;
* `Operand.utf8ByteSize_text_le`     — operands;
* `Operation.utf8ByteSize_mnemonic`  — names of operations, which are not empty;
* `Instruction.utf8ByteSize_text_lt` — instructions.
-/

/-! ### Numbers -/

/-- As many digits as the bound has, in front of those that are there. -/
theorem length_hexDigits_le (k n : Nat) (acc : List Char) (h : n < 16 ^ (k + 1)) :
    (hexDigits n acc).length ≤ acc.length + (k + 1) := by
  induction k generalizing n acc with
  | zero =>
    rw [hexDigits, if_pos (by simpa using h)]
    exact Nat.le_refl _
  | succ k ih =>
    rw [hexDigits]
    split
    · rw [List.length_cons]
      omega
    · have hquotient : n / 16 < 16 ^ (k + 1) := by
        rw [Nat.div_lt_iff_lt_mul (by decide)]
        exact h
      have hrest := ih (n / 16) (hexDigit (n % 16) :: acc) hquotient
      rw [List.length_cons] at hrest
      omega

/-- A character has at most four bytes. -/
theorem utf8ByteSize_ofList_le (cs : List Char) : (String.ofList cs).utf8ByteSize ≤ 4 * cs.length := by
  induction cs with
  | nil => decide
  | cons c cs ih =>
    have hc := c.utf8Size_le_four
    have hsplit : String.ofList (c :: cs) = String.singleton c ++ String.ofList cs := by
      rw [String.singleton_eq_ofList, ← String.ofList_append, List.singleton_append]
    rw [hsplit, String.utf8ByteSize_append, String.utf8ByteSize_singleton, List.length_cons]
    omega

/-- A character has four bytes at most. -/
theorem utf8ByteSize_le (s : String) : s.utf8ByteSize ≤ 4 * s.length := by
  have h := utf8ByteSize_ofList_le s.toList
  rwa [String.ofList_toList, String.length_toList] at h

/-- Numbers of 64 bits have at most sixteen digits. -/
theorem utf8ByteSize_hex0x_le {n : Nat} (h : n < UInt64.size) : (hex0x n).utf8ByteSize ≤ 66 := by
  have hprefix : "0x".utf8ByteSize = 2 := by decide
  have hdigits := length_hexDigits_le 15 n [] h
  have hbytes := utf8ByteSize_ofList_le (hexDigits n [])
  rw [hex0x, String.utf8ByteSize_append, hex, hprefix]
  rw [List.length_nil] at hdigits
  omega

/-- A displacement as a word has eight digits at most. -/
theorem toNat_toUInt32_lt (d : Int32) : d.toUInt32.toNat < UInt64.size :=
  Nat.lt_trans d.toUInt32.toNat_lt (by decide)

/-- The size of a displacement without its sign. -/
theorem natAbs_toInt_lt (d : Int32) : d.toInt.natAbs < UInt64.size := by
  have hlow := d.le_toInt
  have hhigh := d.toInt_lt
  have hsize : UInt64.size = 2 ^ 64 := rfl
  omega

/-- In decimal they have at most twenty. -/
theorem utf8ByteSize_toString_le {n : Nat} (h : n < UInt64.size) :
    (toString n).utf8ByteSize ≤ 80 := by
  have hlt : n < 10 ^ 20 := Nat.lt_trans h (by decide)
  have hdigits : (toString n).length ≤ 20 := Nat.repr_length n 20 (by decide) hlt
  have hbytes := utf8ByteSize_le (toString n)
  omega

/-! ### Operands -/

/-- Names of whole registers. -/
theorem Gpr.utf8ByteSize_name_le (g : Gpr) : g.name.utf8ByteSize ≤ 4 := by
  cases g <;> decide

/-- Names of the lower halves. -/
theorem Gpr.utf8ByteSize_name32_le (g : Gpr) : g.name32.utf8ByteSize ≤ 4 := by
  cases g <;> decide

/-- Names of parts of registers. -/
theorem Reg.utf8ByteSize_name_le (r : Reg) : r.name.utf8ByteSize ≤ 4 := by
  cases r with
  | low g w => cases w <;> cases g <;> decide
  | high g => cases g <;> decide

/-- Names of vector registers. -/
theorem VecReg.utf8ByteSize_name_le (v : VecReg) : v.name.utf8ByteSize ≤ 5 := by
  obtain ⟨i, size⟩ := v
  revert i
  cases size <;> decide

namespace Address

variable (a : Address)

/-- Names of registers in an address. -/
theorem utf8ByteSize_registerName_le (g : Gpr) : (a.registerName g).utf8ByteSize ≤ 4 := by
  rw [registerName]
  split
  · exact g.utf8ByteSize_name32_le
  · exact g.utf8ByteSize_name_le

/-- The base in an address. -/
theorem utf8ByteSize_baseText_le : a.baseText.utf8ByteSize ≤ 4 := by
  rw [baseText]
  split
  · decide
  · next g _ => exact a.utf8ByteSize_registerName_le g
  · split <;> decide

/-- The index and its factor in an address. -/
theorem utf8ByteSize_indexText_le : a.indexText.utf8ByteSize ≤ 10 := by
  rw [indexText]
  split
  · decide
  · next g _ =>
    have hname := a.utf8ByteSize_registerName_le g
    have hsign : (if a.base = .zero then "" else "+").utf8ByteSize ≤ 1 := by split <;> decide
    have hfactor : ("*" ++ toString a.scale.factor).utf8ByteSize ≤ 2 := by
      cases a.scale <;> decide
    have hscale : (if a.scale = .one then "" else "*" ++ toString a.scale.factor).utf8ByteSize ≤ 2 := by
      split
      · decide
      · exact hfactor
    simp only [String.utf8ByteSize_append]
    omega

/-- The displacement with its sign. -/
theorem utf8ByteSize_displacementText_le : a.displacementText.utf8ByteSize ≤ 67 := by
  have hunsigned := utf8ByteSize_hex0x_le (toNat_toUInt32_lt a.displacement)
  have hsigned := utf8ByteSize_hex0x_le (natAbs_toInt_lt a.displacement)
  have hminus : "-".utf8ByteSize = 1 := by decide
  have hplus : "+".utf8ByteSize = 1 := by decide
  rw [displacementText]
  split
  · omega
  · split
    · decide
    · split
      · rw [String.utf8ByteSize_append, hminus]
        omega
      · rw [String.utf8ByteSize_append, hplus]
        omega

/-- An address is its parts and brackets. -/
theorem utf8ByteSize_text_le : a.text.utf8ByteSize ≤ 86 := by
  have hbase := a.utf8ByteSize_baseText_le
  have hindex := a.utf8ByteSize_indexText_le
  have hdisplacement := a.utf8ByteSize_displacementText_le
  have hbrackets : "[".utf8ByteSize = 1 ∧ "]".utf8ByteSize = 1 := by decide
  rw [text]
  simp only [String.utf8ByteSize_append]
  split
  · have hnone : "".utf8ByteSize = 0 := by decide
    omega
  · next s _ =>
    have hsegment : (s.name ++ ":").utf8ByteSize ≤ 3 := by cases s <;> decide
    omega

end Address

/-- An operand has at most 86 bytes, which is the bound for one in memory. -/
theorem Operand.utf8ByteSize_text_le (o : Operand) : o.text.utf8ByteSize ≤ 86 := by
  cases o with
  | reg r => exact Nat.le_trans r.utf8ByteSize_name_le (by decide)
  | vec v => exact Nat.le_trans v.utf8ByteSize_name_le (by decide)
  | mem a => exact a.utf8ByteSize_text_le
  | imm v => exact Nat.le_trans (utf8ByteSize_hex0x_le v.toNat_lt) (by decide)

/-! ### Instructions -/

/-- No mnemonic is empty or long. -/
theorem SseOp.utf8ByteSize_mnemonic (op : SseOp) :
    0 < op.mnemonic.utf8ByteSize ∧ op.mnemonic.utf8ByteSize ≤ 32 := by
  cases op with
  | movePacked form => cases form <;> decide
  | logic op => cases op <;> decide
  | lanes op lane => cases op <;> cases lane <;> decide
  | shiftLanes op lane => cases op <;> cases lane <;> decide
  | shiftBytes op => cases op <;> decide
  | float op p => cases op <;> cases p <;> decide
  | compare ordered p => cases ordered <;> cases p <;> decide
  | moveScalar p => cases p <;> decide
  | ofInteger p _ => rw [mnemonic]; cases p <;> decide
  | toInteger p _ => rw [mnemonic]; cases p <;> decide
  | movd => decide
  | movq => decide
  | moveMask => decide
  | widen => decide
  | narrow => decide

namespace Operation

/-- Names of operations. -/
theorem utf8ByteSize_mnemonic (op : Operation) :
    0 < op.mnemonic.utf8ByteSize ∧ op.mnemonic.utf8ByteSize ≤ 32 := by
  cases op with
  | arith op _ _ _ => rw [mnemonic]; cases op <;> decide
  | mulDiv op _ _ => rw [mnemonic]; cases op <;> decide
  | shift op _ _ _ => rw [mnemonic]; cases op <;> decide
  | movsx _ _ w => cases w <;> rw [mnemonic] <;> decide
  | extendAcc w => cases w <;> decide
  | fillData w => cases w <;> decide
  | jcc cond _ => rw [mnemonic]; cases cond <;> decide
  | setcc cond _ => rw [mnemonic]; cases cond <;> decide
  | cmovcc cond _ _ _ => rw [mnemonic]; cases cond <;> decide
  | flag op => cases op <;> decide
  | string op w times _ =>
    have hname : 0 < (op.mnemonic ++ w.letter).utf8ByteSize ∧
        (op.mnemonic ++ w.letter).utf8ByteSize ≤ 5 := by cases op <;> cases w <;> decide
    have htimes : (times.name ++ " ").utf8ByteSize ≤ 6 := by cases times <;> decide
    rw [String.utf8ByteSize_append] at hname htimes
    cases times <;> simp only [mnemonic, String.utf8ByteSize_append] <;> omega
  | sse op _ _ => exact op.utf8ByteSize_mnemonic
  | vexMove aligned _ _ => cases aligned <;> rw [mnemonic] <;> decide
  | vexBinary op _ _ _ => rw [mnemonic]; cases op <;> decide
  | intrinsic id => cases id <;> decide
  | _ => rw [mnemonic]; decide

/-- What is printed besides operands: a target or a count. -/
theorem utf8ByteSize_extraText?_le (op : Operation) (s : String) (h : op.extraText? = some s) :
    s.utf8ByteSize ≤ 66 := by
  have hex : ∀ n : UInt64, (hex0x n.toNat).utf8ByteSize ≤ 66 := fun n =>
    utf8ByteSize_hex0x_le n.toNat_lt
  cases op with
  | imul _ _ imm w =>
    cases imm with
    | none => cases h
    | some imm => cases h; exact hex _
  | shift _ _ count _ =>
    cases count with
    -- a count of one byte prints no longer than a word
    | imm n =>
      cases h
      exact utf8ByteSize_hex0x_le (Nat.lt_trans n.toNat_lt (by decide))
    | cl =>
      cases h
      decide
  | ret count =>
    rw [extraText?, Option.ite_none_left_eq_some] at h
    obtain ⟨-, h⟩ := h
    cases h
    exact utf8ByteSize_hex0x_le (Nat.lt_trans count.toNat_lt (by decide))
  | jmp target => cases h; exact hex target
  | jcc _ target => cases h; exact hex target
  | call target => cases h; exact hex target
  | _ => cases h

/-- Texts with commas between them. -/
theorem utf8ByteSize_intercalate_le {b : Nat} {texts : List String}
    (h : ∀ t ∈ texts, t.utf8ByteSize ≤ b) :
    (",".intercalate texts).utf8ByteSize ≤ texts.length * (b + 1) := by
  have hcomma : ",".utf8ByteSize = 1 := by decide
  induction texts with
  | nil =>
    have hempty : (",".intercalate []).utf8ByteSize = 0 := by decide
    omega
  | cons t texts ih =>
    have ht := h t List.mem_cons_self
    cases texts with
    | nil =>
      rw [String.intercalate_singleton, List.length_singleton]
      omega
    | cons u texts =>
      have hrest := ih fun t ht => h t (List.mem_cons_of_mem _ ht)
      rw [String.intercalate_cons_cons, String.utf8ByteSize_append, String.utf8ByteSize_append,
        hcomma, List.length_cons, Nat.succ_mul]
      omega

/-- No operand is longer than the longest address. -/
theorem utf8ByteSize_operandTexts_le (op : Operation) :
    ∀ t ∈ op.operandTexts, t.utf8ByteSize ≤ 86 := by
  intro t ht
  obtain hoperand | hextra := List.mem_append.mp ht
  · obtain ⟨o, -, rfl⟩ := List.mem_map.mp hoperand
    exact o.utf8ByteSize_text_le
  · have hbound := op.utf8ByteSize_extraText?_le t (Option.mem_toList.mp hextra)
    omega

/-- The text of an operation fits into a field of a trace. -/
theorem utf8ByteSize_text_lt (op : Operation) : op.text.utf8ByteSize < UInt16.size := by
  have hsize : UInt16.size = 65536 := rfl
  have hmnemonic := op.utf8ByteSize_mnemonic
  have htab : "\t".utf8ByteSize = 1 := by decide
  have hoperands := utf8ByteSize_intercalate_le op.utf8ByteSize_operandTexts_le
  have hcount : op.operandTexts.length ≤ 4 := by
    have hlisted := op.length_operands_le
    have hextra : op.extraText?.toList.length ≤ 1 := by cases op.extraText? <;> simp
    rw [operandTexts, List.length_append, List.length_map]
    omega
  have hjoined := Nat.mul_le_mul_right (86 + 1) hcount
  rw [text]
  split
  · omega
  · rw [String.utf8ByteSize_append, String.utf8ByteSize_append, htab]
    omega

/-- Every operation has a name. -/
theorem text_ne_empty (op : Operation) : op.text ≠ "" := by
  have hmnemonic := op.utf8ByteSize_mnemonic
  have hsize : 0 < op.text.utf8ByteSize := by
    rw [text]
    split
    · exact hmnemonic.1
    · rw [String.utf8ByteSize_append, String.utf8ByteSize_append]
      omega
  intro hempty
  rw [hempty] at hsize
  exact absurd hsize (by decide)

end Operation

/-- The disassembly of an instruction fits into a trace. -/
theorem Instruction.utf8ByteSize_text_lt (i : Instruction) : i.text.utf8ByteSize < UInt16.size :=
  i.operation.utf8ByteSize_text_lt

end Amd64
