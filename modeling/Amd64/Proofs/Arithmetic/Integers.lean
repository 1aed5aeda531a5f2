import Amd64.Arithmetic
import Mathlib.Data.Nat.Bitwise
import Mathlib.Tactic.Zify

namespace Amd64

/-!
# Sums and differences as integers

Flags are computed from the bits of operands and results. What they mean is said by integers.

* `Overflows`              — an integer has no two's-complement form of a number of bits;
* `IsSum`, `IsDifference`  — what a result and its flags have to be;
* `addFlags_balance`, `subFlags_balance` — result and carry together are the whole sum or difference, which
  decides everything else;
* `Width.and_signBit_ne_zero_iff`, `overflowOfAdd_iff`, `overflowOfSub_iff` — the sign bit of a width, and
  overflow as a statement about signs;
* `arithmetic_integers`    — sums, differences and the operations that are made of them.
-/

/-! ### Numbers -/

/-- Whether an integer has no two's-complement form of `n` bits. -/
def Overflows (n : Nat) (i : Int) : Prop :=
  i < -2 ^ (n - 1) ∨ 2 ^ (n - 1) ≤ i

/-- The bounds of a number with its sign in the highest bit. -/
theorem overflows_iff {n : Nat} {i : Int} :
    Overflows n i ↔ i < -(2 ^ (n - 1) : Nat) ∨ (2 ^ (n - 1) : Nat) ≤ i := by
  push_cast
  rfl

/-- A number that is less than twice a modulus is what is left of it and what is carried. -/
theorem mod_add_carry {n m : Nat} (h : n < 2 * m) : n % m + m * (decide (m ≤ n)).toNat = n := by
  by_cases hle : m ≤ n
  · have hmod : n % m = n - m := by
      rw [Nat.mod_eq_sub_mod hle, Nat.mod_eq_of_lt (by omega)]
    rw [hmod, decide_eq_true hle, Bool.toNat_true]
    omega
  · rw [Nat.mod_eq_of_lt (by omega), decide_eq_false hle, Bool.toNat_false, Nat.mul_zero, Nat.add_zero]

/-- What is left of a sum, and whether something was carried. -/
theorem sum_of_balance {r n m : Nat} {q : Bool} (hr : r < m) (h : r + m * q.toNat = n) :
    r = n % m ∧ (q = true ↔ m ≤ n) := by
  subst h
  rw [Nat.add_mul_mod_self_left, Nat.mod_eq_of_lt hr]
  cases q with
  | false => simp [hr]
  | true => simp

/-- What is left of a difference, and whether something was borrowed. -/
theorem difference_of_balance {r x y m : Nat} {q : Bool} (hr : r < m) (h : r + y = x + m * q.toNat) :
    (r : Int) = ((x : Int) - y) % m ∧ (q = true ↔ x < y) := by
  have hmod : (r : Int) % m = r := Int.emod_eq_of_lt (by omega) (by omega)
  have hsplit : (r : Int) = (x : Int) - y + m * q.toNat := by
    zify at h
    omega
  refine ⟨?_, ?_⟩
  · rw [← hmod, hsplit, Int.add_mul_emod_self_left]
  · cases q <;> simp at h ⊢ <;> omega

/-- Two's complement of an integer that has at most one bit too many. -/
theorem bmod_two_mul {i : Int} {h : Nat} (hlow : -(2 * h) ≤ i) (hhigh : i < 2 * h) :
    i.bmod (2 * h) = if i < -h then i + 2 * h else if h ≤ i then i - 2 * h else i := by
  have hmod : i % (2 * h : Nat) = if i < 0 then i + 2 * h else i := by
    split
    · rw [← Int.add_emod_right, Int.emod_eq_of_lt (by omega) (by omega)]
      push_cast
      rfl
    · exact Int.emod_eq_of_lt (by omega) (by omega)
  rw [Int.bmod_def, hmod]
  split_ifs <;> omega

/-- Terms of a sum may be wrapped before. -/
theorem bmod_sum (x y z : Int) (n : Nat) : (x.bmod n + y.bmod n + z).bmod n = (x + y + z).bmod n := by
  rw [Int.add_assoc, Int.bmod_add_bmod, Int.add_left_comm, Int.bmod_add_bmod, Int.add_left_comm,
    Int.add_assoc]

/-- Terms of a difference may be wrapped before. -/
theorem bmod_difference (x y z : Int) (n : Nat) :
    (x.bmod n - y.bmod n - z).bmod n = (x - y - z).bmod n := by
  rw [Int.sub_sub, Int.bmod_sub_bmod, Int.add_comm, ← Int.sub_sub, Int.sub_bmod_bmod, Int.sub_sub,
    Int.add_comm, ← Int.sub_sub]

/-- A sum overflows if and only if it has a sign that neither operand has. -/
theorem sum_overflows_iff {h : Nat} {s t : Int} {c : Bool} (hs : -h ≤ s ∧ s < h) (ht : -h ≤ t ∧ t < h) :
    (s < 0 ↔ 0 ≤ (s + t + c.toNat).bmod (2 * h)) ∧ (t < 0 ↔ 0 ≤ (s + t + c.toNat).bmod (2 * h)) ↔
      s + t + c.toNat < -h ∨ h ≤ s + t + c.toNat := by
  have hc := c.toNat_le
  rw [bmod_two_mul (by omega) (by omega)]
  split_ifs <;> omega

/-- A difference overflows if and only if the operands have different signs and it has that of the second. -/
theorem difference_overflows_iff {h : Nat} {s t : Int} {c : Bool} (hs : -h ≤ s ∧ s < h)
    (ht : -h ≤ t ∧ t < h) :
    (s < 0 ↔ 0 ≤ t) ∧ (s < 0 ↔ 0 ≤ (s - t - c.toNat).bmod (2 * h)) ↔
      s - t - c.toNat < -h ∨ h ≤ s - t - c.toNat := by
  have hc := c.toNat_le
  rw [bmod_two_mul (by omega) (by omega)]
  split_ifs <;> omega

/-- What the low four bits of a sum carry, seen from the bits above them. -/
theorem nibble_sum_iff {x y r k : Nat} {c : Bool} (h : r + 32 * k = x + y + c.toNat) :
    (x / 16 + y / 16 + r / 16) % 2 = 1 ↔ 16 ≤ x % 16 + y % 16 + c.toNat := by
  have hc := c.toNat_le
  omega

/-- What the low four bits of a difference borrow, seen from the bits above them. -/
theorem nibble_difference_iff {x y r k : Nat} {c : Bool} (h : r + y + c.toNat = x + 32 * k) :
    (x / 16 + y / 16 + r / 16) % 2 = 1 ↔ x % 16 < y % 16 + c.toNat := by
  have hc := c.toNat_le
  omega

/-! ### The bits of a width -/

/-- A mask of one bit tests this bit. -/
theorem and_ne_zero_iff {v b : UInt64} {k : Nat} (hb : b.toNat = 2 ^ k) :
    v &&& b ≠ 0 ↔ v.toNat.testBit k = true := by
  rw [ne_eq, ← UInt64.toNat_inj, UInt64.toNat_and, hb, Nat.and_two_pow]
  cases v.toNat.testBit k <;> simp

namespace Width

variable (w : Width) (v : UInt64)

/-- The numbers of a width end at a power of two. -/
theorem modulus_eq_two_pow : w.modulus = 2 ^ w.bits := by
  cases w <;> rfl

/-- Every width has a highest bit. -/
theorem bits_pos : 0 < w.bits := by
  cases w <;> decide

/-- The number of a word is one of its width. -/
theorem toNat_lt_two_pow : w.toNat v < 2 ^ w.bits :=
  w.modulus_eq_two_pow ▸ w.toNat_lt v

/-- Half of all numbers have their highest bit set. -/
theorem modulus_eq_two_mul : w.modulus = 2 * 2 ^ (w.bits - 1) := by
  cases w <;> rfl

/-- A carry out of the low four bits stays inside every width. -/
theorem dvd_modulus : 32 ∣ w.modulus := by
  cases w <;> decide

/-- The mask of the sign as a number. -/
theorem toNat_signBit : w.signBit.toNat = 2 ^ (w.bits - 1) := by
  cases w <;> rfl

/-- To cut a word does not change its number. -/
@[simp] theorem toNat_of_truncate : w.toNat (w.truncate v) = w.toNat v := by
  rw [toNat, toNat_truncate, Nat.mod_eq_of_lt (w.toNat_lt v)]

/-- The number of a word that is short enough. -/
theorem toNat_of_lt {w : Width} {v : UInt64} (h : v.toNat < 2 ^ w.bits) : w.toNat v = v.toNat := by
  rw [toNat, modulus_eq_two_pow, Nat.mod_eq_of_lt h]

/-- A word that is short enough is not cut. -/
theorem truncate_of_lt {w : Width} {v : UInt64} (h : v.toNat < 2 ^ w.bits) : w.truncate v = v := by
  rw [← UInt64.toNat_inj, toNat_truncate, toNat_of_lt h]

/-- A word that was cut is short enough. -/
theorem toNat_truncate_lt : (w.truncate v).toNat < 2 ^ w.bits := by
  rw [toNat_truncate]
  exact w.toNat_lt_two_pow v

/-- To cut a word does not change its number with a sign. -/
@[simp] theorem toInt_of_truncate : w.toInt (w.truncate v) = w.toInt v := by
  rw [toInt, toNat_of_truncate, toInt]

/-- Words of every width fit into 64 bits evenly. -/
theorem modulus_dvd_size : w.modulus ∣ 2 ^ 64 := by
  cases w <;> decide

/-- The low bits of a sum are those of the sum of the low bits. -/
theorem toNat_add (x y : UInt64) : w.toNat (x + y) = (w.toNat x + w.toNat y) % w.modulus := by
  rw [toNat, UInt64.toNat_add, Nat.mod_mod_of_dvd _ w.modulus_dvd_size, Nat.add_mod]
  rfl

/-- The carry as a number. -/
theorem toNat_carryWord (c : Bool) : w.toNat (carryWord c) = c.toNat := by
  cases w <;> cases c <;> rfl

/-- A number is stored up to whole turns of the width. -/
@[simp] theorem toNat_ofNat (n : Nat) : w.toNat (UInt64.ofNat n) = n % w.modulus := by
  rw [toNat, UInt64.toNat_ofNat', Nat.mod_mod_of_dvd _ w.modulus_dvd_size]

/-- An integer is stored up to whole turns of the width. -/
@[simp] theorem toNat_ofInt (i : Int) : (w.toNat (UInt64.ofInt i) : Int) = i % w.modulus := by
  have hdvd : (w.modulus : Int) ∣ 2 ^ 64 := by exact_mod_cast w.modulus_dvd_size
  rw [UInt64.ofInt, toNat_ofNat, Int.natCast_emod, Int.toNat_of_nonneg (Int.emod_nonneg i (by decide)),
    Int.emod_emod_of_dvd _ hdvd]

/-- An integer is stored with its sign, up to whole turns. -/
@[simp] theorem toInt_ofInt (i : Int) : w.toInt (UInt64.ofInt i) = i.bmod w.modulus := by
  rw [toInt, toNat_ofInt, Int.emod_bmod]

/-- The numbers with signs of a width. -/
theorem toInt_bounds : -(2 ^ (w.bits - 1) : Nat) ≤ w.toInt v ∧ w.toInt v < (2 ^ (w.bits - 1) : Nat) := by
  have hpos : 0 < w.modulus := by cases w <;> decide
  have hlow := Int.le_bmod (x := w.toNat v) hpos
  have hhigh := Int.bmod_lt (x := w.toNat v) hpos
  rw [← toInt, w.modulus_eq_two_mul] at hlow hhigh
  omega

/-- Two's complement keeps the numbers that have a form of the width, and no others. -/
theorem bmod_modulus_eq_iff {i : Int} : i.bmod w.modulus = i ↔ ¬ Overflows w.bits i := by
  rw [overflows_iff, w.modulus_eq_two_mul]
  have hpos : 0 < 2 * 2 ^ (w.bits - 1) := Nat.mul_pos (by decide) (Nat.two_pow_pos _)
  constructor
  · intro h
    have hlow := Int.le_bmod (x := i) hpos
    have hhigh := Int.bmod_lt (x := i) hpos
    omega
  · intro h
    exact Int.bmod_eq_of_le (by omega) (by omega)

/-- The sign bit of the low bits. -/
theorem testBit_sign : v.toNat.testBit (w.bits - 1) = true ↔ w.toInt v < 0 := by
  have hlow : v.toNat.testBit (w.bits - 1) = (w.toNat v).testBit (w.bits - 1) := by
    have hlt : w.bits - 1 < w.bits := Nat.sub_lt w.bits_pos Nat.one_pos
    rw [toNat, modulus_eq_two_pow, Nat.testBit_mod_two_pow, decide_eq_true hlt, Bool.true_and]
  have hbound := w.toNat_lt v
  rw [modulus_eq_two_mul] at hbound
  rw [hlow, toInt, modulus_eq_two_mul, bmod_two_mul (by omega) (by exact_mod_cast hbound)]
  by_cases h : 2 ^ (w.bits - 1) ≤ w.toNat v
  · have hset := Nat.testBit_of_two_pow_le_and_two_pow_add_one_gt h (by rwa [Nat.pow_succ'])
    simp only [hset, true_iff]
    split_ifs <;> omega
  · have hclear := Nat.testBit_lt_two_pow (Nat.lt_of_not_le h)
    simp only [hclear, Bool.false_eq_true, false_iff]
    split_ifs <;> omega

/-- The sign bit tells a negative number. -/
theorem and_signBit_ne_zero_iff : v &&& w.signBit ≠ 0 ↔ w.toInt v < 0 := by
  rw [and_ne_zero_iff w.toNat_signBit, testBit_sign]

/-- A conjunction is negative if both numbers are. -/
theorem toInt_and_neg_iff (x y : UInt64) :
    w.toInt (x &&& y) < 0 ↔ w.toInt x < 0 ∧ w.toInt y < 0 := by
  simp only [← testBit_sign, UInt64.toNat_and, Nat.testBit_and, Bool.and_eq_true]

/-- An exclusive disjunction is negative if the signs differ. -/
theorem toInt_xor_neg_iff (x y : UInt64) :
    w.toInt (x ^^^ y) < 0 ↔ (w.toInt x < 0 ↔ 0 ≤ w.toInt y) := by
  rw [← Int.not_lt (b := 0)]
  simp only [← testBit_sign, UInt64.toNat_xor, Nat.testBit_xor]
  cases x.toNat.testBit (w.bits - 1) <;> cases y.toNat.testBit (w.bits - 1) <;> decide

end Width

/-! ### Flags -/

section
variable (w : Width) (a b r : UInt64)

/-- The test for negative results. -/
theorem isNegativeAt_iff : isNegativeAt w r = true ↔ w.toInt r < 0 := by
  rw [isNegativeAt, decide_eq_true_eq, w.and_signBit_ne_zero_iff]

/-- A sum overflows if both numbers have the sign that it does not have. -/
theorem overflowOfAdd_iff : overflowOfAdd w a b r = true ↔
    (w.toInt a < 0 ↔ 0 ≤ w.toInt r) ∧ (w.toInt b < 0 ↔ 0 ≤ w.toInt r) := by
  rw [overflowOfAdd, decide_eq_true_eq, w.and_signBit_ne_zero_iff, w.toInt_and_neg_iff,
    w.toInt_xor_neg_iff, w.toInt_xor_neg_iff]

/-- A difference overflows if the signs differ and it has not the first one. -/
theorem overflowOfSub_iff : overflowOfSub w a b r = true ↔
    (w.toInt a < 0 ↔ 0 ≤ w.toInt b) ∧ (w.toInt a < 0 ↔ 0 ≤ w.toInt r) := by
  rw [overflowOfSub, decide_eq_true_eq, w.and_signBit_ne_zero_iff, w.toInt_and_neg_iff,
    w.toInt_xor_neg_iff, w.toInt_xor_neg_iff]

/-- Bit 4 of a sum without its carries is what the low four bits carry into it. -/
theorem nibbleCarry_iff : nibbleCarry a b r = true ↔
    (a.toNat / 16 + b.toNat / 16 + r.toNat / 16) % 2 = 1 := by
  rw [nibbleCarry, decide_eq_true_eq, and_ne_zero_iff (k := 4) rfl, UInt64.toNat_xor, UInt64.toNat_xor,
    Nat.testBit_xor, Nat.testBit_xor]
  simp only [Nat.testBit_eq_decide_div_mod_eq, Nat.reducePow]
  by_cases ha : a.toNat / 16 % 2 = 1 <;> by_cases hb : b.toNat / 16 % 2 = 1 <;>
    by_cases hr : r.toNat / 16 % 2 = 1 <;> simp [ha, hb, hr] <;> omega

/-- The parity counts the bits of the lowest byte. -/
theorem evenParity_iff :
    evenParity r = true ↔ (List.range 8).countP r.toNat.testBit % 2 = 0 := by
  have hrange : List.range 8 = [0, 1, 2, 3, 4, 5, 6, 7] := rfl
  rw [evenParity, decide_eq_true_eq, ← not_iff_not, ← ne_eq, and_ne_zero_iff (k := 0) rfl, hrange]
  simp only [UInt64.toNat_xor, UInt64.toNat_shiftRight, Nat.testBit_xor, Nat.testBit_shiftRight,
    UInt64.reduceToNat, Nat.reduceMod, Nat.reduceAdd, List.countP_cons, List.countP_nil]
  -- what is left is about eight bits
  generalize r.toNat.testBit = bit
  generalize bit 0 = b₀, bit 1 = b₁, bit 2 = b₂, bit 3 = b₃, bit 4 = b₄, bit 5 = b₅, bit 6 = b₆,
    bit 7 = b₇
  revert b₀ b₁ b₂ b₃ b₄ b₅ b₆ b₇
  decide

end

/-- What the flags `g` show of a result, besides carries and overflow, if they were `f` before. -/
structure Flags.AfterResult (f : Flags) (w : Width) (r : UInt64) (g : Flags) : Prop where
  zero : g.zero = true ↔ r.toNat = 0
  sign : g.sign = true ↔ w.toInt r < 0
  parity : g.parity = true ↔ (List.range 8).countP r.toNat.testBit % 2 = 0
  direction : g.direction = f.direction
  reserved : g.reserved = f.reserved

/-- `r` is the sum of the low bits of `a` and `b` and the carry `c`, and `g` are its flags. -/
structure IsSum (f : Flags) (w : Width) (a b : UInt64) (c : Bool) (r : UInt64) (g : Flags) : Prop where
  result : r.toNat = (w.toNat a + w.toNat b + c.toNat) % 2 ^ w.bits
  carry : g.carry = true ↔ 2 ^ w.bits ≤ w.toNat a + w.toNat b + c.toNat
  overflow : g.overflow = true ↔ Overflows w.bits (w.toInt a + w.toInt b + c.toNat)
  adjust : g.adjust = true ↔ 16 ≤ w.toNat a % 16 + w.toNat b % 16 + c.toNat
  flags : f.AfterResult w r g

/-- `r` is the low bits of `a` without those of `b` and the borrow `c`, and `g` are its flags. -/
structure IsDifference (f : Flags) (w : Width) (a b : UInt64) (c : Bool) (r : UInt64) (g : Flags) :
    Prop where
  result : (r.toNat : Int) = ((w.toNat a : Int) - w.toNat b - c.toNat) % 2 ^ w.bits
  carry : g.carry = true ↔ w.toNat a < w.toNat b + c.toNat
  overflow : g.overflow = true ↔ Overflows w.bits (w.toInt a - w.toInt b - c.toNat)
  adjust : g.adjust = true ↔ w.toNat a % 16 < w.toNat b % 16 + c.toNat
  flags : f.AfterResult w r g

section
variable (f : Flags) (w : Width) (a b : UInt64) (c : Bool)

/-- The flags after a result that was cut to its width. -/
theorem Flags.afterResult (v : UInt64) (carry overflow adjust : Bool) :
    f.AfterResult w (w.truncate v)
      { (f.withCarryOverflow carry overflow).ofResult w (w.truncate v) with adjust := adjust } := by
  refine ⟨?_, isNegativeAt_iff w _, evenParity_iff _, rfl, rfl⟩
  show isZeroAt w _ = true ↔ _
  rw [isZeroAt, Width.truncate_truncate, decide_eq_true_eq, ← UInt64.toNat_inj]
  rfl

/-! ### Sums -/

/-- A sum is cut to its width. -/
theorem toNat_addFlags :
    (addFlags f w a b c).1.toNat = (w.toNat a + w.toNat b + c.toNat) % w.modulus := by
  show (w.truncate (w.truncate a + w.truncate b + carryWord c)).toNat = _
  rw [Width.toNat_truncate, Width.toNat_add, Width.toNat_add, Width.toNat_carryWord, Nat.mod_add_mod,
    Width.toNat_of_truncate, Width.toNat_of_truncate]

/-- The carry flag says that the sum was cut. -/
theorem carry_addFlags :
    (addFlags f w a b c).2.carry = decide (w.modulus ≤ w.toNat a + w.toNat b + c.toNat) := by
  have hmask : w.mask.toNat + 1 = w.modulus := by cases w <;> rfl
  show decide (_ < _) = _
  rw [Width.truncate_truncate, Width.truncate_truncate, Width.toNat_truncate, Width.toNat_truncate,
    decide_eq_decide, ← hmask]
  rfl

/-- The word of a sum is short enough. -/
theorem addFlags_lt : (addFlags f w a b c).1.toNat < w.modulus :=
  (w.toNat_truncate _).trans_lt (w.toNat_lt _)

/-- **Sums.** Result and carry together are the whole sum. -/
theorem addFlags_balance :
    (addFlags f w a b c).1.toNat + w.modulus * (addFlags f w a b c).2.carry.toNat =
      w.toNat a + w.toNat b + c.toNat := by
  have ha := w.toNat_lt a
  have hb := w.toNat_lt b
  have hc := c.toNat_le
  rw [toNat_addFlags, carry_addFlags]
  exact mod_add_carry (by omega)

/-- The sum in two's complement. -/
theorem toInt_addFlags : w.toInt (addFlags f w a b c).1 =
    (w.toInt a + w.toInt b + c.toNat).bmod w.modulus := by
  rw [Width.toInt, Width.toNat, toNat_addFlags, Nat.mod_mod, Int.natCast_emod, Int.emod_bmod,
    Width.toInt, Width.toInt, bmod_sum]
  push_cast
  rfl

/-- A sum with all of its flags, against integers. -/
theorem isSum_addFlags : IsSum f w a b c (addFlags f w a b c).1 (addFlags f w a b c).2 where
  result := by rw [toNat_addFlags, Width.modulus_eq_two_pow]
  carry := by rw [carry_addFlags, decide_eq_true_eq, Width.modulus_eq_two_pow]
  overflow := by
    have hint := toInt_addFlags f w a b c
    have hsum := sum_overflows_iff (c := c) (w.toInt_bounds a) (w.toInt_bounds b)
    rw [Width.modulus_eq_two_mul] at hint
    rw [← hint] at hsum
    show overflowOfAdd w _ _ (addFlags f w a b c).1 = true ↔ _
    rw [overflowOfAdd_iff, Width.toInt_of_truncate, Width.toInt_of_truncate, hsum, overflows_iff]
  adjust := by
    have hbalance := addFlags_balance f w a b c
    obtain ⟨m, hm⟩ := w.dvd_modulus
    rw [hm, Nat.mul_assoc] at hbalance
    show nibbleCarry _ _ (addFlags f w a b c).1 = true ↔ _
    rw [nibbleCarry_iff, Width.toNat_truncate, Width.toNat_truncate]
    exact nibble_sum_iff hbalance
  flags := f.afterResult w _ _ _ _

/-! ### Differences -/

/-- A difference is cut to its width. -/
theorem toNat_subFlags :
    (subFlags f w a b c).1.toNat = w.toNat (w.truncate a - w.truncate b - carryWord c) :=
  w.toNat_truncate _

/-- The carry flag says that the first number was too small. -/
theorem carry_subFlags :
    (subFlags f w a b c).2.carry = decide (w.toNat a < w.toNat b + c.toNat) := by
  show decide (_ < _) = _
  rw [Width.truncate_truncate, Width.truncate_truncate, Width.toNat_truncate, Width.toNat_truncate]

/-- The word of a difference is short enough. -/
theorem subFlags_lt : (subFlags f w a b c).1.toNat < w.modulus :=
  (w.toNat_truncate _).trans_lt (w.toNat_lt _)

/-- **Differences.** What was taken away and the result are what was there and what was borrowed. -/
theorem subFlags_balance :
    (subFlags f w a b c).1.toNat + w.toNat b + c.toNat =
      w.toNat a + w.modulus * (subFlags f w a b c).2.carry.toNat := by
  have ha := w.toNat_lt a
  have hb := w.toNat_lt b
  have hc := c.toNat_le
  have hr := subFlags_lt f w a b c
  -- what was taken away is put back
  have hback := congrArg w.toNat
    (show w.truncate a - w.truncate b - carryWord c + carryWord c + w.truncate b = w.truncate a by
      rw [UInt64.sub_add_cancel, UInt64.sub_add_cancel])
  rw [Width.toNat_add, Width.toNat_add, Width.toNat_carryWord, Width.toNat_of_truncate,
    Width.toNat_of_truncate, ← toNat_subFlags f, Nat.mod_add_mod, Nat.add_right_comm] at hback
  obtain ⟨q, hq⟩ : ∃ q : Bool, (subFlags f w a b c).1.toNat + w.toNat b + c.toNat =
      w.toNat a + w.modulus * q.toNat :=
    ⟨_, (hback ▸ mod_add_carry (by omega)).symm⟩
  have hborrow : q = decide (w.toNat a < w.toNat b + c.toNat) := by
    cases q <;> simp at hq ⊢ <;> omega
  rw [carry_subFlags, ← hborrow, hq]

/-- The difference as an integer, with what was borrowed given back. -/
theorem subFlags_eq : ((subFlags f w a b c).1.toNat : Int) =
    w.toNat a - w.toNat b - c.toNat + w.modulus * (subFlags f w a b c).2.carry.toNat := by
  have hbalance := subFlags_balance f w a b c
  zify at hbalance
  omega

/-- The difference in two's complement. -/
theorem toInt_subFlags : w.toInt (subFlags f w a b c).1 =
    (w.toInt a - w.toInt b - c.toNat).bmod w.modulus := by
  rw [Width.toInt, Width.toNat, Int.natCast_emod, Int.emod_bmod, subFlags_eq,
    Int.add_mul_bmod_self_left, Width.toInt, Width.toInt, bmod_difference]

/-- A difference with all of its flags, against integers. -/
theorem isDifference_subFlags :
    IsDifference f w a b c (subFlags f w a b c).1 (subFlags f w a b c).2 where
  result := by
    have hbalance := subFlags_balance f w a b c
    rw [Nat.add_assoc] at hbalance
    have hresult := (difference_of_balance (subFlags_lt f w a b c) hbalance).1
    rw [Width.modulus_eq_two_pow] at hresult
    push_cast at hresult
    rw [hresult, Int.sub_sub]
  carry := by rw [carry_subFlags, decide_eq_true_eq]
  overflow := by
    have hint := toInt_subFlags f w a b c
    -- signed overflow is a difference outside the signed range, and both sides speak of that one difference
    have hdifference := difference_overflows_iff (c := c) (w.toInt_bounds a) (w.toInt_bounds b)
    rw [Width.modulus_eq_two_mul] at hint
    rw [← hint] at hdifference
    show overflowOfSub w _ _ (subFlags f w a b c).1 = true ↔ _
    rw [overflowOfSub_iff, Width.toInt_of_truncate, Width.toInt_of_truncate, hdifference,
      overflows_iff]
  adjust := by
    have hbalance := subFlags_balance f w a b c
    obtain ⟨m, hm⟩ := w.dvd_modulus
    -- modulo 16 the balance of the whole operands is the balance of their low nibbles
    rw [hm, Nat.mul_assoc] at hbalance
    show nibbleCarry _ _ (subFlags f w a b c).1 = true ↔ _
    rw [nibbleCarry_iff, Width.toNat_truncate, Width.toNat_truncate]
    exact nibble_difference_iff hbalance
  flags := f.afterResult w _ _ _ _

/-! ### Main statement -/

/-- **Arithmetic.** Sums and differences with a carry are those of the integers that the low bits of the
    operands stand for, and so are their flags.  Counting up and down is a sum or difference with one that
    keeps the carry flag, and negation is the difference of zero and its operand. -/
theorem arithmetic_integers :
    IsSum f w a b c (addFlags f w a b c).1 (addFlags f w a b c).2 ∧
      IsDifference f w a b c (subFlags f w a b c).1 (subFlags f w a b c).2 ∧
      (∃ g, IsSum f w a 1 false (incFlags f w a).1 g ∧
        (incFlags f w a).2 = { g with carry := f.carry }) ∧
      (∃ g, IsDifference f w a 1 false (decFlags f w a).1 g ∧
        (decFlags f w a).2 = { g with carry := f.carry }) ∧
      IsDifference f w 0 a false (negFlags f w a).1 (negFlags f w a).2 := by
  refine ⟨isSum_addFlags f w a b c, isDifference_subFlags f w a b c, ?_, ?_, ?_⟩
  · exact ⟨_, isSum_addFlags f w a 1 false, rfl⟩
  · exact ⟨_, isDifference_subFlags f w a 1 false, rfl⟩
  · exact isDifference_subFlags f w 0 a false

end

end Amd64
