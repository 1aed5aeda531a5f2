import Amd64.Proofs.Arithmetic.Integers
import Mathlib.Data.Nat.Digits.Lemmas
import Mathlib.Tactic.Ring
import Mathlib.Tactic.Linarith
import Mathlib.Tactic.LinearCombination

namespace Amd64

/-!
# Chains of carries

Numbers that are longer than a register are lists of limbs, the lowest first. The operation on a limb takes
the carry flag of the one before it.

* `Width.value`, `Width.signedValue` — the number of a list of limbs, without and with sign;
* `ArithOp.chain`             — operations on limbs, one after the other;
* `ArithOp.Steps`             — an operation adds or takes away the other operand and the carry;
* `Steps.value_chain`, `Steps.overflow_chain` — so does a chain of it, by induction on the limbs;
* `carryChains_integers`      — chains of additions and subtractions.
-/

/-! ### Limbs -/

/-- Low digits of a number do not matter for its sign. -/
theorem bmod_add_mul {x i : Int} {m h : Nat} (hx : 0 ≤ x ∧ x < m) :
    (x + m * i).bmod (m * (2 * h)) = x + m * i.bmod (2 * h) := by
  by_cases hh : h = 0
  · subst hh
    simp
  have hpos : 0 < 2 * h := by omega
  have hlow := Int.le_bmod (x := i) hpos
  have hhigh := Int.bmod_lt (x := i) hpos
  -- what two's complement takes away from `i` is a multiple of the whole modulus once it is shifted
  have hsplit : x + m * i = x + m * i.bmod (2 * h) + (m * (2 * h) : Nat) * i.bdiv (2 * h) := by
    have hi := Int.bmod_add_bdiv i (2 * h)
    conv_lhs => rw [← hi]
    push_cast
    ring
  rw [hsplit, Int.add_mul_bmod_self_left]
  have hl : (m : Int) * -h ≤ m * i.bmod (2 * h) :=
    Int.mul_le_mul_of_nonneg_left (by omega) (by omega)
  have hu : (m : Int) * (i.bmod (2 * h) + 1) ≤ m * h :=
    Int.mul_le_mul_of_nonneg_left (by omega) (by omega)
  have hm : m * (2 * h) = 2 * (m * h) := by ring
  rw [mul_neg] at hl
  rw [mul_add, mul_one] at hu
  refine Int.bmod_eq_of_le ?_ ?_ <;> rw [hm] <;> push_cast <;> omega

/-- Nor do they matter for whether it overflows. -/
theorem overflows_add_mul {k n : Nat} {x i : Int} (hn : 0 < n) (hx : 0 ≤ x ∧ x < 2 ^ k) :
    Overflows (k + n) (x + 2 ^ k * i) ↔ Overflows n i := by
  have hpow : (2 : Int) ^ (k + n - 1) = 2 ^ (n - 1) * 2 ^ k := by
    rw [← pow_add]
    congr 1
    omega
  have hdiv : (x + 2 ^ k * i) / 2 ^ k = i := by
    rw [Int.add_mul_ediv_left _ _ (by positivity), Int.ediv_eq_zero_of_lt hx.1 hx.2, zero_add]
  rw [Overflows, Overflows, hpow, ← neg_mul, ← Int.ediv_lt_iff_lt_mul (by positivity),
    ← Int.le_ediv_iff_mul_le (by positivity), hdiv]

namespace Width

/-- The number of a list of limbs. -/
def value (w : Width) (xs : List UInt64) : Nat :=
  Nat.ofDigits (2 ^ w.bits) (xs.map w.toNat)

/-- The number of a list of limbs in two's complement of all their bits. -/
def signedValue (w : Width) (xs : List UInt64) : Int :=
  (w.value xs : Int).bmod (2 ^ (w.bits * xs.length))

variable (w : Width) (x : UInt64) (xs : List UInt64)

/-- The lowest limb comes first. -/
theorem value_cons : w.value (x :: xs) = w.toNat x + 2 ^ w.bits * w.value xs :=
  Nat.ofDigits_cons

/-- The bound of a number with so many limbs. -/
theorem value_lt : w.value xs < 2 ^ (w.bits * xs.length) := by
  have hbase : 1 < 2 ^ w.bits := by cases w <;> decide
  have hdigits : ∀ d ∈ xs.map w.toNat, d < 2 ^ w.bits := by
    intro d hd
    obtain ⟨v, -, rfl⟩ := List.mem_map.mp hd
    exact w.toNat_lt_two_pow v
  rw [pow_mul, ← List.length_map (f := w.toNat)]
  exact Nat.ofDigits_lt_base_pow_length hbase hdigits

/-- One limb has its own sign. -/
theorem signedValue_singleton : w.signedValue [x] = w.toInt x := by
  rw [signedValue, value_cons, toInt, modulus_eq_two_pow]
  simp [value]

/-- The sign is in the highest limb. -/
theorem signedValue_cons (hne : xs ≠ []) :
    w.signedValue (x :: xs) = w.toNat x + 2 ^ w.bits * w.signedValue xs := by
  have hx : 0 ≤ (w.toNat x : Int) ∧ (w.toNat x : Int) < (2 ^ w.bits : Nat) :=
    ⟨by omega, by exact_mod_cast w.toNat_lt_two_pow x⟩
  have heven : 2 ^ (w.bits * xs.length) = 2 * 2 ^ (w.bits * xs.length - 1) := by
    rw [← pow_succ', Nat.sub_add_cancel (Nat.mul_pos w.bits_pos (List.length_pos_iff.mpr hne))]
  have hmodulus : 2 ^ (w.bits * (x :: xs).length) =
      2 ^ w.bits * (2 * 2 ^ (w.bits * xs.length - 1)) := by
    rw [← heven, ← pow_add, List.length_cons, Nat.mul_succ, Nat.add_comm]
  rw [signedValue, signedValue, hmodulus, heven, value_cons, Nat.cast_add, Nat.cast_mul,
    bmod_add_mul hx, Nat.cast_pow, Nat.cast_ofNat]

end Width

/-! ### Chains -/

namespace ArithOp

/-- The lowest limbs are operated on by `first` and the others by `op`. Each operation takes the flags that
the one before it left. -/
def chain (first op : ArithOp) (w : Width) : Flags → List UInt64 → List UInt64 → List UInt64 × Flags
  | f, x :: xs, y :: ys =>
    let low := first.apply f w x y
    let high := chain op op w low.2 xs ys
    (low.1 :: high.1, high.2)
  | f, _, _ => ([], f)

/-- The operation adds `s` times the other operand and the carry, and carries `s` times what does not fit. -/
structure Steps (op : ArithOp) (w : Width) (s : Int) : Prop where
  lt : ∀ f x y, (op.apply f w x y).1.toNat < 2 ^ w.bits
  result : ∀ f x y,
    ((op.apply f w x y).1.toNat : Int) + 2 ^ w.bits * (s * (op.apply f w x y).2.carry.toNat) =
      w.toNat x + s * (w.toNat y + f.carry.toNat)
  overflow : ∀ f x y, (op.apply f w x y).2.overflow = true ↔
    Overflows w.bits (w.toInt x + s * (w.toInt y + f.carry.toNat))

/-- The step of a sum takes the carry in and gives it out. -/
theorem steps_adc (w : Width) : adc.Steps w 1 where
  lt f x y := w.modulus_eq_two_pow ▸ addFlags_lt f w x y f.carry
  result f x y := by
    have hbalance := addFlags_balance f w x y f.carry
    rw [w.modulus_eq_two_pow] at hbalance
    zify at hbalance
    show ((addFlags f w x y f.carry).1.toNat : Int) +
      2 ^ w.bits * (1 * (addFlags f w x y f.carry).2.carry.toNat) = _
    linarith
  overflow f x y := by
    rw [one_mul, ← add_assoc]
    exact (isSum_addFlags f w x y f.carry).overflow

/-- The step of a difference takes the borrow in and gives it out. -/
theorem steps_sbb (w : Width) : sbb.Steps w (-1) where
  lt f x y := w.modulus_eq_two_pow ▸ subFlags_lt f w x y f.carry
  result f x y := by
    have hbalance := subFlags_balance f w x y f.carry
    rw [w.modulus_eq_two_pow] at hbalance
    zify at hbalance
    show ((subFlags f w x y f.carry).1.toNat : Int) +
      2 ^ w.bits * (-1 * (subFlags f w x y f.carry).2.carry.toNat) = _
    linarith
  overflow f x y := by
    rw [neg_one_mul, neg_add, ← sub_eq_add_neg, ← add_sub_assoc, ← sub_eq_add_neg]
    exact (isDifference_subFlags f w x y f.carry).overflow

variable {op : ArithOp} {w : Width} {s : Int} {xs ys : List UInt64}

/-- One step, then the chain of the rest with the flags of this step. -/
theorem chain_cons (first : ArithOp) (f : Flags) (x y : UInt64) :
    chain first op w f (x :: xs) (y :: ys) =
      ((first.apply f w x y).1 :: (chain op op w (first.apply f w x y).2 xs ys).1,
        (chain op op w (first.apply f w x y).2 xs ys).2) := rfl

/-- A chain has a limb for each limb. -/
theorem length_chain (first : ArithOp) (f : Flags) (hlength : xs.length = ys.length) :
    (chain first op w f xs ys).1.length = xs.length := by
  induction xs generalizing first f ys with
  | nil => rfl
  | cons x xs ih =>
    obtain ⟨y, ys, rfl⟩ := List.exists_cons_of_length_eq_add_one hlength.symm
    rw [chain_cons, List.length_cons, List.length_cons, ih op _ (Nat.succ.inj hlength)]

/-- Every limb of the result has the width. -/
theorem Steps.lt_of_mem_chain (h : op.Steps w s) (f : Flags) {r : UInt64}
    (hr : r ∈ (chain op op w f xs ys).1) : r.toNat < 2 ^ w.bits := by
  induction xs generalizing f ys with
  | nil => exact absurd hr List.not_mem_nil
  | cons x xs ih =>
    cases ys with
    | nil => exact absurd hr List.not_mem_nil
    | cons y ys =>
      rw [chain_cons] at hr
      obtain rfl | hr := List.mem_cons.mp hr
      · exact h.lt f x y
      · exact ih _ hr

/-- **Values.** What one limb carries is what the next ones take, so a chain carries what does not fit in all
limbs. -/
theorem Steps.value_chain (h : op.Steps w s) (f : Flags) (hlength : xs.length = ys.length) :
    (w.value (chain op op w f xs ys).1 : Int) +
        2 ^ (w.bits * xs.length) * (s * (chain op op w f xs ys).2.carry.toNat) =
      w.value xs + s * (w.value ys + f.carry.toNat) := by
  induction xs generalizing f ys with
  | nil =>
    obtain rfl := List.length_eq_zero_iff.mp hlength.symm
    simp [chain, Width.value]
  | cons x xs ih =>
    obtain ⟨y, ys, rfl⟩ := List.exists_cons_of_length_eq_add_one hlength.symm
    have hhigh := ih (op.apply f w x y).2 (Nat.succ.inj hlength)
    have hlow := h.result f x y
    have hr : w.toNat (op.apply f w x y).1 = (op.apply f w x y).1.toNat :=
      Nat.mod_eq_of_lt (w.modulus_eq_two_pow ▸ h.lt f x y)
    rw [chain_cons, Width.value_cons, Width.value_cons, Width.value_cons, hr, List.length_cons,
      Nat.mul_succ, pow_add]
    push_cast
    linear_combination hlow + 2 ^ w.bits * hhigh

/-- **Overflow.** The last operation sees the signs of the whole numbers. -/
theorem Steps.overflow_chain (h : op.Steps w s) (f : Flags) (hlength : xs.length = ys.length)
    (hne : xs ≠ []) : (chain op op w f xs ys).2.overflow = true ↔
      Overflows (w.bits * xs.length) (w.signedValue xs + s * (w.signedValue ys + f.carry.toNat)) := by
  induction xs generalizing f ys with
  | nil => exact absurd rfl hne
  | cons x xs ih =>
    obtain ⟨y, ys, rfl⟩ := List.exists_cons_of_length_eq_add_one hlength.symm
    replace hlength : xs.length = ys.length := Nat.succ.inj hlength
    by_cases hxs : xs = []
    -- the highest limb has the sign
    · subst hxs
      obtain rfl := List.length_eq_zero_iff.mp hlength.symm
      rw [Width.signedValue_singleton, Width.signedValue_singleton, List.length_singleton, Nat.mul_one]
      exact h.overflow f x y
    -- a lower limb hands on its carry, and what it keeps is too small to matter
    · have hys : ys ≠ [] := fun hnil => hxs (List.length_eq_zero_iff.mp (hlength ▸ hnil ▸ rfl))
      have hlow := h.result f x y
      have hlt : ((op.apply f w x y).1.toNat : Int) < 2 ^ w.bits := by exact_mod_cast h.lt f x y
      have hsum : w.signedValue (x :: xs) + s * (w.signedValue (y :: ys) + f.carry.toNat) =
          (op.apply f w x y).1.toNat + 2 ^ w.bits *
            (w.signedValue xs + s * (w.signedValue ys + (op.apply f w x y).2.carry.toNat)) := by
        rw [w.signedValue_cons x xs hxs, w.signedValue_cons y ys hys]
        linear_combination -hlow
      have hpos : 0 < w.bits * xs.length :=
        Nat.mul_pos w.bits_pos (List.length_pos_iff.mpr hxs)
      rw [chain_cons, ih _ hlength hxs, hsum, List.length_cons, Nat.mul_succ, Nat.add_comm,
        overflows_add_mul hpos ⟨by omega, hlt⟩]

/-- Where the first operation takes no carry, it does what the others do after the carry was cleared. -/
theorem exists_chain {first : ArithOp}
    (hfirst : ∀ f x y, first.apply f w x y = op.apply { f with carry := false } w x y) (f : Flags)
    (hlength : xs.length = ys.length) (hne : xs ≠ []) :
    ∃ g : Flags, g.carry = false ∧ chain first op w f xs ys = chain op op w g xs ys := by
  obtain ⟨x, xs, rfl⟩ := List.exists_cons_of_ne_nil hne
  obtain ⟨y, ys, rfl⟩ := List.exists_cons_of_length_eq_add_one hlength.symm
  refine ⟨{ f with carry := false }, rfl, ?_⟩
  rw [chain_cons, chain_cons, hfirst]

end ArithOp

/-! ### Main statement -/

/-- The limbs `rs` are the sum of the numbers of `xs` and `ys`, and `g` are the flags that are left. -/
structure IsLimbSum (w : Width) (xs ys rs : List UInt64) (g : Flags) : Prop where
  length : rs.length = xs.length
  limb : ∀ r ∈ rs, r.toNat < 2 ^ w.bits
  result : w.value rs = (w.value xs + w.value ys) % 2 ^ (w.bits * xs.length)
  carry : g.carry = true ↔ 2 ^ (w.bits * xs.length) ≤ w.value xs + w.value ys
  overflow : g.overflow = true ↔ Overflows (w.bits * xs.length) (w.signedValue xs + w.signedValue ys)

/-- The limbs `rs` are the number of `xs` without that of `ys`, and `g` are the flags that are left. -/
structure IsLimbDifference (w : Width) (xs ys rs : List UInt64) (g : Flags) : Prop where
  length : rs.length = xs.length
  limb : ∀ r ∈ rs, r.toNat < 2 ^ w.bits
  result : (w.value rs : Int) = ((w.value xs : Int) - w.value ys) % 2 ^ (w.bits * xs.length)
  carry : g.carry = true ↔ w.value xs < w.value ys
  overflow : g.overflow = true ↔ Overflows (w.bits * xs.length) (w.signedValue xs - w.signedValue ys)

section
variable (w : Width) (f : Flags) {xs ys : List UInt64}

open ArithOp

/-- Additions in a chain add the numbers of the limbs. -/
theorem isLimbSum_chain (hlength : xs.length = ys.length) (hne : xs ≠ []) :
    IsLimbSum w xs ys (chain add adc w f xs ys).1 (chain add adc w f xs ys).2 := by
  have hadd : ∀ f x y, add.apply f w x y = adc.apply { f with carry := false } w x y := fun _ _ _ => rfl
  obtain ⟨g, hclear, hchain⟩ := exists_chain hadd f hlength hne
  rw [hchain]
  have hcount : (chain adc adc w g xs ys).1.length = xs.length := length_chain adc g hlength
  have hlt := w.value_lt (chain adc adc w g xs ys).1
  have hvalue := (steps_adc w).value_chain g hlength
  have hoverflow := (steps_adc w).overflow_chain g hlength hne
  rw [hcount] at hlt
  simp only [hclear, one_mul, Bool.toNat_false, Nat.cast_zero, add_zero] at hvalue hoverflow
  obtain ⟨hresult, hcarry⟩ := sum_of_balance hlt (by exact_mod_cast hvalue)
  exact ⟨hcount, fun r hr => (steps_adc w).lt_of_mem_chain g hr, hresult, hcarry, hoverflow⟩

/-- Subtractions in a chain subtract the numbers of the limbs. -/
theorem isLimbDifference_chain (hlength : xs.length = ys.length) (hne : xs ≠ []) :
    IsLimbDifference w xs ys (chain sub sbb w f xs ys).1 (chain sub sbb w f xs ys).2 := by
  have hsub : ∀ f x y, sub.apply f w x y = sbb.apply { f with carry := false } w x y := fun _ _ _ => rfl
  obtain ⟨g, hclear, hchain⟩ := exists_chain hsub f hlength hne
  rw [hchain]
  have hcount : (chain sbb sbb w g xs ys).1.length = xs.length := length_chain sbb g hlength
  have hlt := w.value_lt (chain sbb sbb w g xs ys).1
  have hvalue := (steps_sbb w).value_chain g hlength
  have hoverflow := (steps_sbb w).overflow_chain g hlength hne
  rw [hcount] at hlt
  simp only [hclear, neg_one_mul, Bool.toNat_false, Nat.cast_zero, add_zero, ← sub_eq_add_neg]
    at hvalue hoverflow
  have hbalance : w.value (chain sbb sbb w g xs ys).1 + w.value ys =
      w.value xs + 2 ^ (w.bits * xs.length) * (chain sbb sbb w g xs ys).2.carry.toNat := by
    zify
    linarith
  obtain ⟨hresult, hcarry⟩ := difference_of_balance hlt hbalance
  push_cast at hresult
  exact ⟨hcount, fun r hr => (steps_sbb w).lt_of_mem_chain g hr, hresult, hcarry, hoverflow⟩

/-- **Chains of carries.** Adding the lowest limbs, and then all others with the carry of the limbs below
    them, adds numbers of any length: the limbs are those of the sum, and the flags at the end tell whether it
    fits, without and with sign.  Subtraction with borrows subtracts them. -/
theorem carryChains_integers (hlength : xs.length = ys.length) (hne : xs ≠ []) :
    IsLimbSum w xs ys (chain add adc w f xs ys).1 (chain add adc w f xs ys).2 ∧
      IsLimbDifference w xs ys (chain sub sbb w f xs ys).1 (chain sub sbb w f xs ys).2 :=
  ⟨isLimbSum_chain w f hlength hne, isLimbDifference_chain w f hlength hne⟩

/-- A number of three bytes, of which only the highest may still grow. -/
def fullLimbs : List UInt64 := [0xff, 0xff, 0x7f]

/-- One in three bytes. -/
def oneLimbs : List UInt64 := [1, 0, 0]

/-- A carry comes into a limb that is full, and goes on into the highest limb, whose sign changes. -/
theorem carryChains_integers_fullLimb :
    fullLimbs.length = oneLimbs.length ∧ fullLimbs ≠ [] ∧
      IsLimbSum .w8 fullLimbs oneLimbs [0, 0, 0x80] (chain add adc .w8 .initial fullLimbs oneLimbs).2 ∧
      (chain add adc .w8 .initial fullLimbs oneLimbs).2.overflow = true ∧
      IsLimbDifference .w8 fullLimbs oneLimbs [0xfe, 0xff, 0x7f]
        (chain sub sbb .w8 .initial fullLimbs oneLimbs).2 := by
  have hne : fullLimbs ≠ [] := List.cons_ne_nil _ _
  have hlength : fullLimbs.length = oneLimbs.length := rfl
  obtain ⟨hsum, hdifference⟩ := carryChains_integers .w8 .initial hlength hne
  have hadd : (chain add adc .w8 .initial fullLimbs oneLimbs).1 = [0, 0, 0x80] := by decide
  have hsub : (chain sub sbb .w8 .initial fullLimbs oneLimbs).1 = [0xfe, 0xff, 0x7f] := by decide
  rw [hadd] at hsum
  rw [hsub] at hdifference
  exact ⟨hlength, hne, hsum, by decide, hdifference⟩

end

end Amd64
