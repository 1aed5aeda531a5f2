import Amd64.Decoder.Basic
import Amd64.Proofs.Arithmetic.Words
import Amd64.Proofs.Instruction.TextLength
import Amd64.Proofs.Machine.Binding
import Amd64.Text.Number
import Mathlib.Data.Fintype.Option

namespace Amd64

/-!
# What the text of an address says

An address is a sum of at most two terms and a displacement.  Its text names the terms one after the other,
and leaves out factors of one and displacements of zero.

* `parseDigits_hexDigits`    — numbers are read back, so their digits determine them;
* `AddressTerm`, `Address.terms` — the terms, with a text and a value;
* `Address.text_eq_iff`      — addresses with the same text have the same segment, displacement and terms.
  The size of the address is shown by the names in the terms, so that it is lost if there are none;
* `Address.effective_bind`   — the address of an access as a sum of the terms;
* `Address.text_determines`  — the text determines the address of every access, but for a displacement that
  stands alone: if it is negative then the size of the address matters.
-/

/-! ### Numbers -/

/-- A digit can be read back. -/
theorem digitValue?_hexDigit (d : Nat) (h : d < 16) : digitValue? 16 (hexDigit d) = some d := by
  revert d
  decide

/-- The digits of a number are read as the number. -/
theorem parseDigits_hexDigits (n : Nat) (h : n < UInt64.size) (cs : List Char) :
    parseDigits 16 0 (hexDigits n cs) = parseDigits 16 n cs := by
  -- digits are made from the last to the first, so the digits in front are those of `n / 16`
  fun_induction hexDigits n cs with
  | case1 n cs hdigit =>
    simp only [parseDigits, digitValue?_hexDigit n hdigit, Nat.zero_mul, Nat.zero_add, if_pos h]
  | case2 n cs hlong ih =>
    have hlast : n % 16 < 16 := Nat.mod_lt n (by decide)
    have hsplit : n / 16 * 16 + n % 16 = n := Nat.div_add_mod' n 16
    rw [ih (by omega)]
    simp only [parseDigits, digitValue?_hexDigit _ hlast, hsplit, if_pos h]

/-- Digits stand behind their prefix. -/
theorem toList_hex0x (n : Nat) : (hex0x n).toList = '0' :: 'x' :: hexDigits n [] := by
  simp [hex0x, hex]

/-- Numbers with the same digits are equal. -/
theorem hex0x_inj {m n : Nat} (hm : m < UInt64.size) (hn : n < UInt64.size)
    (h : (hex0x m).toList = (hex0x n).toList) : m = n := by
  rw [toList_hex0x, toList_hex0x] at h
  have hdigits : hexDigits m [] = hexDigits n [] := (List.cons.inj (List.cons.inj h).2).2
  have hread : parseDigits 16 m [] = parseDigits 16 n [] := by
    rw [← parseDigits_hexDigits m hm, hdigits, parseDigits_hexDigits n hn]
  have hword : UInt64.ofNat m = UInt64.ofNat n := Except.ok.inj hread
  rw [← UInt64.toNat_ofNat_of_lt' hm, hword, UInt64.toNat_ofNat_of_lt' hn]

/-! ### Words -/

/-- A word ends where the first character stands that it cannot contain. -/
theorem append_inj_of_all {α : Type} {p : α → Bool} {w w' r r' : List α} (hw : w.all p) (hw' : w'.all p)
    (hr : r.head?.all fun c => !p c) (hr' : r'.head?.all fun c => !p c) (h : w ++ r = w' ++ r') :
    w = w' ∧ r = r' := by
  have htake (v s : List α) (hv : v.all p) (hs : s.head?.all fun c => !p c) : (v ++ s).takeWhile p = v := by
    rw [List.takeWhile_append_of_pos (List.all_eq_true.mp hv)]
    cases s with
    | nil => simp
    | cons c cs =>
      have hc : p c = false := by simpa using hs
      simp [hc]
  have hwords : w = w' := by
    rw [← htake w r hw hr, h, htake w' r' hw' hr']
  subst hwords
  exact ⟨rfl, List.append_cancel_left h⟩

/-! ### Terms -/

/-- What is added to the displacement of an address: a multiple of a register, or of the address behind the
instruction if there is no register. -/
structure AddressTerm where
  register : Option Gpr
  scale : Scale
deriving DecidableEq

namespace AddressTerm

/-- The word that is added. -/
def value (next : UInt64) (s : Cpu) (t : AddressTerm) : UInt64 :=
  t.register.elim next s.gpr * UInt64.ofNat t.scale.factor

/-- The sum of terms. -/
def total (next : UInt64) (s : Cpu) : List AddressTerm → UInt64
  | [] => 0
  | t :: ts => t.value next s + total next s ts

/-- The name in front of the factor, which shows the size of the address. -/
def name (narrow : Bool) : Option Gpr → String
  | none => if narrow then "eip" else "rip"
  | some g => if narrow then g.name32 else g.name

/-- The factor, which is left out if it is one. -/
def factorText (k : Scale) : String :=
  if k = .one then "" else "*" ++ toString k.factor

/-- The term as text. -/
def chars (narrow : Bool) (t : AddressTerm) : List Char :=
  (name narrow t.register).toList ++ (factorText t.scale).toList

section

variable {n n' : Bool} {t t' : AddressTerm}

/-- Names have no signs and brackets. -/
theorem all_name (n : Bool) (r : Option Gpr) : (name n r).toList.all Char.isAlphanum := by
  cases r with
  | none => revert n; decide
  | some g => cases n <;> cases g <;> decide

/-- No name begins like a number. -/
theorem head_name (n : Bool) (r : Option Gpr) : (name n r).toList.head?.any (· ≠ '0') := by
  cases r with
  | none => revert n; decide
  | some g => cases n <;> cases g <;> decide

/-- No name is used twice. -/
theorem name_inj {r r' : Option Gpr} (h : name n r = name n' r') : n = n' ∧ r = r' := by
  -- there are 34 names, so they are compared by evaluation, with registers as numbers
  have hfinite : ∀ (n n' : Bool) (i i' : Option (Fin 16)),
      name n (i.map Gpr.ofIndex) = name n' (i'.map Gpr.ofIndex) → n = n' ∧ i = i' := by
    decide +kernel
  have hindex (r : Option Gpr) : (r.map Gpr.index).map Gpr.ofIndex = r := by
    cases r <;> simp
  obtain ⟨hnarrow, hnumbers⟩ := hfinite n n' (r.map Gpr.index) (r'.map Gpr.index) (by rwa [hindex, hindex])
  exact ⟨hnarrow, by rw [← hindex r, hnumbers, hindex]⟩

/-- A factor does not go on with the name. -/
theorem head_factorText (k : Scale) : (factorText k).toList.head?.all fun c => !c.isAlphanum := by
  cases k <;> decide

/-- A factor can be read back. -/
theorem factorText_inj {k k' : Scale} (h : (factorText k).toList = (factorText k').toList) : k = k' := by
  revert h
  cases k <;> cases k' <;> decide

/-- A term can be read back. -/
theorem chars_inj (h : t.chars n = t'.chars n') : n = n' ∧ t = t' := by
  obtain ⟨r, k⟩ := t
  obtain ⟨r', k'⟩ := t'
  obtain ⟨hname, hfactor⟩ := append_inj_of_all (all_name n r) (all_name n' r')
    (head_factorText k) (head_factorText k') h
  obtain ⟨hnarrow, hregister⟩ := name_inj (String.toList_inj.mp hname)
  rw [hregister, factorText_inj hfactor]
  exact ⟨hnarrow, rfl⟩

/-- The characters of terms; there is no sign among them. -/
def isTermChar (c : Char) : Bool :=
  c.isAlphanum || c == '*'

/-- Terms have no signs and brackets. -/
theorem all_chars (n : Bool) (t : AddressTerm) : (t.chars n).all isTermChar := by
  rw [chars, List.all_append, Bool.and_eq_true]
  constructor
  · refine List.all_eq_true.mpr fun c hc => ?_
    rw [isTermChar, List.all_eq_true.mp (all_name n t.register) c hc, Bool.true_or]
  · cases t.scale <;> decide

/-- A term does not start like a number. -/
theorem chars_append_ne (n : Bool) (t : AddressTerm) (r cs : List Char) : t.chars n ++ r ≠ '0' :: cs := by
  have hname := head_name n t.register
  rw [chars]
  cases hchars : (name n t.register).toList with
  | nil => simp [hchars] at hname
  | cons c cs =>
    have hc : c ≠ '0' := by simpa [hchars] using hname
    simp [hc]

end

end AddressTerm

/-! ### Sums -/

open AddressTerm

/-- The displacement behind a term. -/
def signedChars (d : Int32) : List Char :=
  if d = 0 then [] else (if d < 0 then '-' else '+') :: (hex0x d.toInt.natAbs).toList

/-- What stands behind a term: further terms and the displacement. -/
def restChars (narrow : Bool) (d : Int32) : List AddressTerm → List Char
  | [] => signedChars d
  | t :: ts => '+' :: (t.chars narrow ++ restChars narrow d ts)

/-- What stands in the brackets. -/
def sumChars (narrow : Bool) (d : Int32) : List AddressTerm → List Char
  | [] => (hex0x d.toUInt32.toNat).toList
  | t :: ts => t.chars narrow ++ restChars narrow d ts

section

variable {n n' : Bool} {d d' : Int32} {ts ts' : List AddressTerm}

/-- A displacement can be read back with its sign. -/
theorem signedChars_inj (h : signedChars d = signedChars d') : d = d' := by
  by_cases hzero : d = 0
  · by_cases hzero' : d' = 0
    · rw [hzero, hzero']
    · simp [signedChars, hzero, hzero'] at h
  · by_cases hzero' : d' = 0
    · simp [signedChars, hzero, hzero'] at h
    · rw [signedChars, signedChars, if_neg hzero, if_neg hzero'] at h
      obtain ⟨hsign, hdigits⟩ := List.cons.inj h
      have habs : d.toInt.natAbs = d'.toInt.natAbs :=
        hex0x_inj (natAbs_toInt_lt d) (natAbs_toInt_lt d') hdigits
      -- the absolute values agree, so the signs are left
      have hnegative : d < 0 ↔ d' < 0 := by
        split_ifs at hsign with hneg hneg' hneg'
        · exact iff_of_true hneg hneg'
        · exact absurd hsign (by decide)
        · exact absurd hsign (by decide)
        · exact iff_of_false hneg hneg'
      simp only [Int32.lt_iff_toInt_lt, Int32.toInt_zero] at hnegative
      apply Int32.toInt_inj.mp
      omega

/-- Every term is followed by a sign or by nothing. -/
theorem head_restChars : (restChars n d ts).head?.all fun c => !isTermChar c := by
  have hplus : isTermChar '+' = false := by decide
  have hminus : isTermChar '-' = false := by decide
  cases ts with
  | nil =>
    rw [restChars, signedChars]
    split_ifs
    · rfl
    · simp [hminus]
    · simp [hplus]
  | cons t ts => simp [restChars, hplus]

/-- Behind a plus sign there is a name or a digit, which tells further terms from the displacement. -/
theorem restChars_cons_ne (t : AddressTerm) : restChars n d (t :: ts) ≠ signedChars d' := by
  rw [restChars, signedChars, toList_hex0x]
  split_ifs
  · exact List.cons_ne_nil _ _
  · simp
  · intro h
    exact chars_append_ne n t _ _ (List.cons.inj h).2

/-- What stands behind the first term can be read back. -/
theorem restChars_inj (h : restChars n d ts = restChars n d' ts') : ts = ts' ∧ d = d' := by
  induction ts generalizing ts' with
  | nil =>
    cases ts' with
    | nil => exact ⟨rfl, signedChars_inj h⟩
    | cons t' ts' => exact absurd h.symm (restChars_cons_ne t')
  | cons t ts ih =>
    cases ts' with
    | nil => exact absurd h (restChars_cons_ne t)
    | cons t' ts' =>
      -- both terms reach to the next sign
      obtain ⟨hterm, hrest⟩ := append_inj_of_all (all_chars n t) (all_chars n t') head_restChars
        head_restChars (List.cons.inj h).2
      obtain ⟨hts, hd⟩ := ih hrest
      rw [(chars_inj hterm).2, hts]
      exact ⟨rfl, hd⟩

/-- Two terms are not printed like one. -/
theorem sumChars_cons_ne (t : AddressTerm) : sumChars n d (t :: ts) ≠ sumChars n' d' [] := by
  rw [sumChars, sumChars, toList_hex0x]
  exact chars_append_ne n t _ _

/-- The names of the terms are all that shows the size of the address. -/
theorem sumChars_inj (h : sumChars n d ts = sumChars n' d' ts') :
    ts = ts' ∧ d = d' ∧ (ts = [] ∨ n = n') := by
  cases ts with
  | nil =>
    cases ts' with
    | nil =>
      have hword : d.toUInt32 = d'.toUInt32 :=
        UInt32.toNat_inj.mp (hex0x_inj (toNat_toUInt32_lt d) (toNat_toUInt32_lt d') h)
      have hd : d = d' := by simpa using congrArg UInt32.toInt32 hword
      exact ⟨rfl, hd, .inl rfl⟩
    | cons t' ts' => exact absurd h.symm (sumChars_cons_ne t')
  | cons t ts =>
    cases ts' with
    | nil => exact absurd h (sumChars_cons_ne t)
    | cons t' ts' =>
      -- the first term shows the size, which all others share
      obtain ⟨hterm, hrest⟩ := append_inj_of_all (all_chars n t) (all_chars n' t') head_restChars
        head_restChars h
      obtain ⟨rfl, rfl⟩ := chars_inj hterm
      obtain ⟨rfl, rfl⟩ := restChars_inj hrest
      exact ⟨rfl, rfl, .inr rfl⟩

end

namespace Address

variable {a b : Address} (next : UInt64) (s : Cpu)

/-- The term of the base. -/
def baseTerm (a : Address) : Option AddressTerm :=
  match a.base with
  | .zero => none
  | .register g => some ⟨some g, .one⟩
  | .next => some ⟨none, .one⟩

/-- The terms that are added to the displacement. -/
def terms (a : Address) : List AddressTerm :=
  a.baseTerm.toList ++ (a.index.map fun g => ⟨some g, a.scale⟩).toList

/-- An address without terms is a displacement only. -/
theorem terms_eq_nil_iff : a.terms = [] ↔ a.base = .zero ∧ a.index = none := by
  unfold terms baseTerm
  cases a.base <;> cases a.index <;> simp

/-! ### Text -/

/-- What stands in front of the brackets. -/
def segmentText (r : Option SegmentRegister) : String :=
  match r with
  | none => ""
  | some r => r.name ++ ":"

/-- A segment is printed without brackets. -/
theorem all_segmentText (r : Option SegmentRegister) : (segmentText r).toList.all (· != '[') := by
  cases r with
  | none => decide
  | some r => cases r <;> decide

/-- A segment can be read back. -/
theorem segmentText_inj {r r' : Option SegmentRegister}
    (h : (segmentText r).toList = (segmentText r').toList) : r = r' := by
  revert h
  rcases r with _ | _ | _ <;> rcases r' with _ | _ | _ <;> decide

/-- The text of an address is its segment and the sum in brackets. -/
theorem toList_text (a : Address) : a.text.toList =
    (segmentText a.segment).toList ++ '[' :: (sumChars a.narrow a.displacement a.terms ++ [']']) := by
  obtain ⟨base, index, scale, d, segment, narrow⟩ := a
  have hsigned : (if d = 0 then "" else if d < 0 then "-" ++ hex0x d.toInt.natAbs
      else "+" ++ hex0x d.toInt.natAbs).toList = signedChars d := by
    unfold signedChars
    split_ifs <;> simp
  cases base <;> cases index <;> cases segment <;>
    simp [text, segmentText, baseText, indexText, displacementText, terms, baseTerm, sumChars, restChars,
      chars, name, factorText, registerName, hsigned]

/-- The text of an address tells its segment, its displacement and its terms, and its size if there is a
term. -/
theorem text_eq_iff : a.text = b.text ↔ a.segment = b.segment ∧ a.displacement = b.displacement ∧
    a.terms = b.terms ∧ (a.terms = [] ∨ a.narrow = b.narrow) := by
  rw [← String.toList_inj, toList_text, toList_text]
  constructor
  · intro h
    obtain ⟨hsegment, hbrackets⟩ := append_inj_of_all (all_segmentText a.segment)
      (all_segmentText b.segment) rfl rfl h
    have hsum := List.append_cancel_right (List.cons.inj hbrackets).2
    obtain ⟨hterms, hd, hnarrow⟩ := sumChars_inj hsum
    exact ⟨segmentText_inj hsegment, hd, hterms, hnarrow⟩
  · rintro ⟨hsegment, hd, hterms, hnarrow⟩
    rw [hsegment, hd, hterms]
    obtain halone | hnarrow := hnarrow
    · rw [← hterms, halone]
      rfl
    · rw [hnarrow]

/-! ### Meaning -/

/-- The sum of the terms is base plus index. -/
theorem total_terms (a : Address) : total next s a.terms = a.baseWord next s + a.indexWord s := by
  unfold terms baseTerm baseWord indexWord
  cases a.base <;> cases a.index <;> simp [total, value, Scale.factor]

/-- The address of an access is the sum of displacement and terms, cut if the address is narrow, behind the
base of the segment. -/
theorem effective_bind (a : Address) : (a.bind next).effective s =
    (let sum := a.displacement.toInt64.toUInt64 + total next s a.terms
     if a.narrow then Width.w32.truncate sum else sum) + s.overrideBase a.segment := by
  rw [BoundAddress.effective_eq_offset_add, offset_bind, segment_bind, total_terms, UInt64.add_assoc]

/-- Sums of one size agree, and so do sums that have 32 bits. -/
theorem ite_truncate_inj (m n : Bool) (x : UInt64) :
    ((if m then Width.w32.truncate x else x) = if n then Width.w32.truncate x else x) ↔
      m = n ∨ Width.w32.truncate x = x := by
  cases m <;> cases n <;> simp [eq_comm]

/-- A displacement that is extended to 64 bits has 32 bits unless it is negative. -/
theorem truncate_displacement_eq_iff (d : Int32) :
    Width.w32.truncate d.toInt64.toUInt64 = d.toInt64.toUInt64 ↔ ¬d < 0 := by
  have hword := toNat_eq_emod (toNat_toUInt64_modEq d)
  have hlow := d.le_toInt
  have hhigh := d.toInt_lt
  have hcut : (Width.w32.truncate d.toInt64.toUInt64).toNat = d.toInt64.toUInt64.toNat % 2 ^ 32 :=
    Width.w32.toNat_truncate _
  rw [← UInt64.toNat_inj, hcut, Int32.lt_iff_toInt_lt, Int32.toInt_zero]
  omega

/-- Addresses with the same text mean the same address of each access, in every state and behind every
instruction, unless they are a negative displacement alone in an address of 64 and in one of 32 bits. -/
theorem text_determines (h : a.text = b.text) :
    (∀ s, (a.bind next).effective s = (b.bind next).effective s) ↔
      (a.base = .zero ∧ a.index = none ∧ a.displacement < 0 → a.narrow = b.narrow) := by
  obtain ⟨hsegment, hd, hterms, hnarrow⟩ := text_eq_iff.mp h
  have hsame (s : Cpu) := ite_truncate_inj a.narrow b.narrow
    (a.displacement.toInt64.toUInt64 + total next s a.terms)
  simp only [effective_bind, ← hsegment, ← hd, ← hterms, UInt64.add_left_inj, hsame]
  constructor
  · rintro hcut ⟨hbase, hindex, hnegative⟩
    have halone : a.terms = [] := terms_eq_nil_iff.mpr ⟨hbase, hindex⟩
    -- without terms the state does not matter, so any of them tells the sizes apart
    simp only [halone, total, UInt64.add_zero, truncate_displacement_eq_iff] at hcut
    exact (hcut .initial).resolve_right (not_not.mpr hnegative)
  · intro hsize s
    obtain halone | hnarrow := hnarrow
    · simp only [halone, total, UInt64.add_zero, truncate_displacement_eq_iff]
      obtain ⟨hbase, hindex⟩ := terms_eq_nil_iff.mp halone
      by_cases hnegative : a.displacement < 0
      · exact .inl (hsize ⟨hbase, hindex, hnegative⟩)
      · exact .inr hnegative
    · exact .inl hnarrow

/-- A load from the last byte of the address space and one from the last byte of its first four gigabytes
are both shown as `[0xffffffff]`. -/
theorem text_determines_lastByte :
    let wide : Address := ⟨.zero, none, .one, -1, none, false⟩
    let narrow : Address := ⟨.zero, none, .one, -1, none, true⟩
    let load (bs : List UInt8) (a : Address) : Instruction :=
      ⟨0x1000, .ofBytes bs, .mov (.reg (.low .rax .w32)) (.mem a) .w32⟩
    let wideCode : List UInt8 := [0x3e, 0x8b, 0x04, 0x25, 0xff, 0xff, 0xff, 0xff]
    let narrowCode : List UInt8 := [0x67, 0x8b, 0x04, 0x25, 0xff, 0xff, 0xff, 0xff]
    decode 0x1000 wideCode = .ok (load wideCode wide) ∧
      decode 0x1000 narrowCode = .ok (load narrowCode narrow) ∧
      (load wideCode wide).next = (load narrowCode narrow).next ∧
      wide.text = "[0xffffffff]" ∧ wide.text = narrow.text ∧
      (wide.bind 0x1008).effective .initial = 0xffffffffffffffff ∧
      (narrow.bind 0x1008).effective .initial = 0xffffffff ∧
      ¬∀ s, (wide.bind 0x1008).effective s = (narrow.bind 0x1008).effective s := by
  intro wide narrow load wideCode narrowCode
  have htext : wide.text = narrow.text := by decide +kernel
  have hdiffers : ¬∀ s, (wide.bind 0x1008).effective s = (narrow.bind 0x1008).effective s := by
    rw [text_determines 0x1008 htext]
    decide
  exact ⟨by decide +kernel, by decide +kernel, by decide +kernel, by decide +kernel, htext,
    by decide +kernel, by decide +kernel, hdiffers⟩

end Address

end Amd64
