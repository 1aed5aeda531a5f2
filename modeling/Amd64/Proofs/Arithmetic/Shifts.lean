import Amd64.Proofs.Arithmetic.Integers
import Mathlib.Tactic.LinearCombination
import Mathlib.Tactic.Linarith
import Mathlib.Tactic.Positivity

namespace Amd64

/-!
# Shifts and rotations as arithmetic

* `ShiftOp.apply`    — a shift by a count that is not masked yet;
* `ShiftOp.IsShift`  — the number that is left, as a product, a quotient or a rotated string of bits;
* `ShiftOp.lastOut`  — the bit that went out last, which is carried;
* `testBit_rotateLeft`, `testBit_rotateRight`, `Width.testBit_toInt` — bits of rotated and of signed numbers;
* `ShiftOp.exact`    — shifts and rotations of every width by every count.
-/

/-! ### Bits -/

/-- Each bit of a rotated string is `k` places higher, and from the top the bits come in below. -/
theorem testBit_rotateLeft {x n k j : Nat} (hx : x < 2 ^ n) (hk : k < n) (hj : j < n) :
    ((x <<< k ||| x >>> (n - k)) % 2 ^ n).testBit ((j + k) % n) = x.testBit j := by
  have hhigh : ∀ i, n ≤ i → x.testBit i = false := fun i hi =>
    Nat.testBit_lt_two_pow (hx.trans_le (Nat.pow_le_pow_right (by decide) hi))
  rw [Nat.testBit_mod_two_pow, decide_eq_true (Nat.mod_lt _ (by omega)), Bool.true_and, Nat.testBit_or,
    Nat.testBit_shiftLeft, Nat.testBit_shiftRight]
  -- the bit is among those that stay below the top, or among those that come in below
  by_cases hwrap : j + k < n
  · rw [Nat.mod_eq_of_lt hwrap, decide_eq_true (by omega), Bool.true_and, Nat.add_sub_cancel,
      hhigh (n - k + (j + k)) (by omega), Bool.or_false]
  · have hmod : (j + k) % n = j + k - n := by
      rw [Nat.mod_eq_sub_mod (by omega), Nat.mod_eq_of_lt (by omega)]
    rw [hmod, decide_eq_false (by omega), Bool.false_and, Bool.false_or]
    congr 1
    omega

/-- Each bit of a rotated string is `k` places lower, and from the bottom the bits come in above. -/
theorem testBit_rotateRight {x n k j : Nat} (hx : x < 2 ^ n) (hk : k < n) (hj : j < n) :
    ((x >>> k ||| x <<< (n - k)) % 2 ^ n).testBit j = x.testBit ((j + k) % n) := by
  have hhigh : ∀ i, n ≤ i → x.testBit i = false := fun i hi =>
    Nat.testBit_lt_two_pow (hx.trans_le (Nat.pow_le_pow_right (by decide) hi))
  rw [Nat.testBit_mod_two_pow, decide_eq_true hj, Bool.true_and, Nat.testBit_or, Nat.testBit_shiftLeft,
    Nat.testBit_shiftRight, Nat.add_comm k j]
  by_cases hwrap : j + k < n
  · rw [Nat.mod_eq_of_lt hwrap, decide_eq_false (by omega), Bool.false_and, Bool.or_false]
  · have hmod : (j + k) % n = j - (n - k) := by
      rw [Nat.mod_eq_sub_mod (by omega), Nat.mod_eq_of_lt (by omega)]
      omega
    rw [hmod, hhigh (j + k) (by omega), decide_eq_true (by omega), Bool.true_and, Bool.false_or]

namespace Width

variable (w : Width) (v : UInt64)

/-- The bits of a number with sign are those of the number without, as far as that has any. -/
theorem testBit_toInt {k : Nat} (hk : k < w.bits) :
    w.toInt v / 2 ^ k % 2 = 1 ↔ (w.toNat v).testBit k = true := by
  -- both numbers differ by a multiple of the modulus, which is an even multiple of `2 ^ k`
  have hmodulus : (w.modulus : Int) = 2 ^ k * (2 * 2 ^ (w.bits - 1 - k)) := by
    rw [w.modulus_eq_two_pow, ← pow_succ', ← pow_add, Nat.cast_pow, Nat.cast_ofNat]
    congr 1
    omega
  have hsplit : w.toInt v =
      w.toNat v + 2 ^ k * (2 * (2 ^ (w.bits - 1 - k) * -(w.toNat v : Int).bdiv w.modulus)) := by
    have hdiv := Int.bmod_add_bdiv (w.toNat v) w.modulus
    rw [← toInt, hmodulus] at hdiv
    linear_combination hdiv
  rw [hsplit, Int.add_mul_ediv_left _ _ (by positivity), Int.add_mul_emod_self_left,
    Nat.testBit_eq_decide_div_mod_eq, decide_eq_true_eq]
  exact_mod_cast Iff.rfl

/-- Above them there are only copies of the sign. -/
theorem testBit_toInt_of_le {k : Nat} (hk : w.bits ≤ k) :
    w.toInt v / 2 ^ k % 2 = 1 ↔ (w.toNat v).testBit (w.bits - 1) = true := by
  have hbounds := w.toInt_bounds v
  have hsmall : (2 ^ (w.bits - 1) : Nat) ≤ 2 ^ k := Nat.pow_le_pow_right (by decide) (by omega)
  have hsign : (w.toNat v).testBit (w.bits - 1) = true ↔ w.toInt v < 0 := by
    rw [← w.toNat_truncate v, testBit_sign, toInt_of_truncate]
  have hcast : (2 : Int) ^ k = (2 ^ k : Nat) := by push_cast; rfl
  rw [hsign, hcast]
  by_cases hneg : w.toInt v < 0
  · rw [Int.ediv_eq_neg_one_of_neg_of_le hneg (by omega)]
    simp [hneg]
  · rw [Int.ediv_eq_zero_of_lt (by omega) (by omega)]
    simp [hneg]

end Width

/-! ### Shifts -/

namespace ShiftOp

/-- Shift or rotation by a count that is not masked yet. -/
def apply (op : ShiftOp) (f : Flags) (w : Width) (a : UInt64) (count : Nat) : UInt64 × Flags :=
  let n := maskedCount w count
  if n = 0 then (a, f) else shiftFlags op f w a n

/-- `r` is `a` shifted or rotated by `n`. -/
def IsShift (w : Width) (a : UInt64) (n : Nat) (r : UInt64) : ShiftOp → Prop
  | shl => w.toNat r = w.toNat a * 2 ^ n % 2 ^ w.bits
  | shr => w.toNat r = w.toNat a / 2 ^ n
  | sar => (w.toNat r : Int) = w.toInt a / 2 ^ n % 2 ^ w.bits
  | rol => ∀ j < w.bits, (w.toNat r).testBit ((j + n) % w.bits) = (w.toNat a).testBit j
  | ror => ∀ j < w.bits, (w.toNat r).testBit j = (w.toNat a).testBit ((j + n) % w.bits)

/-- The bit that goes out last when `a` is shifted by `n`, or the one that comes in last when it is rotated to
    `r`. Beyond the operand there are zeros, or copies of its sign. -/
def lastOut (w : Width) (a : UInt64) (n : Nat) (r : UInt64) : ShiftOp → Bool
  | shl => n ≤ w.bits && (w.toNat a).testBit (w.bits - n)
  | shr => (w.toNat a).testBit (n - 1)
  | sar => (w.toNat a).testBit (min (n - 1) (w.bits - 1))
  | rol => (w.toNat r).testBit 0
  | ror => (w.toNat r).testBit (w.bits - 1)

variable (f : Flags) (w : Width) (a : UInt64)

/-- By nothing, a number is shifted to itself. -/
theorem isShift_zero (op : ShiftOp) : op.IsShift w a 0 a := by
  have ha := w.toNat_lt_two_pow a
  cases op with
  | shl => rw [IsShift, Nat.pow_zero, Nat.mul_one, Nat.mod_eq_of_lt ha]
  | shr => rw [IsShift, Nat.pow_zero, Nat.div_one]
  | sar =>
    have hmod : ((w.toNat a : Int)) = w.toInt a % w.modulus := by
      rw [Width.toInt, Int.bmod_emod, Int.emod_eq_of_lt (by omega) (by exact_mod_cast w.toNat_lt a)]
    rw [IsShift, pow_zero, Int.ediv_one, hmod, w.modulus_eq_two_pow]
    push_cast
    rfl
  | rol | ror =>
    intro j hj
    rw [Nat.add_zero, Nat.mod_eq_of_lt hj]

/-- Every kind of shift by a masked count. -/
theorem isShift_shiftFlags (op : ShiftOp) (n : Nat) :
    op.IsShift w a n (shiftFlags op f w a n).1 := by
  cases op with
  | shl =>
    rw [IsShift, shiftFlags]
    simp only [Width.toNat_of_truncate, Width.toNat_ofNat, Width.toNat_truncate, Nat.shiftLeft_eq,
      w.modulus_eq_two_pow]
  | shr =>
    -- what is moved down stays below the end of the width, so nothing is cut
    have hlt : w.toNat a / 2 ^ n < 2 ^ w.bits := (Nat.div_le_self _ _).trans_lt (w.toNat_lt_two_pow a)
    rw [IsShift, shiftFlags]
    simp only [Width.toNat_ofNat, Width.toNat_truncate, Nat.shiftRight_eq_div_pow, w.modulus_eq_two_pow,
      Nat.mod_eq_of_lt hlt]
  | sar =>
    rw [IsShift, shiftFlags]
    simp only [Width.toNat_of_truncate, Width.toNat_ofInt, Width.toInt_of_truncate,
      Int.shiftRight_eq_div_pow, w.modulus_eq_two_pow]
    push_cast
    rfl
  | rol =>
    -- bit by bit, where a rotation by the count is one by its rest in the width
    intro j hj
    have hrotate := testBit_rotateLeft (w.toNat_lt_two_pow a) (Nat.mod_lt n w.bits_pos) hj
    rw [Nat.add_mod_mod] at hrotate
    rw [shiftFlags]
    simp only [Width.toNat_of_truncate, Width.toNat_ofNat, Width.toNat_truncate, w.modulus_eq_two_pow]
    exact hrotate
  | ror =>
    intro j hj
    have hrotate := testBit_rotateRight (w.toNat_lt_two_pow a) (Nat.mod_lt n w.bits_pos) hj
    rw [Nat.add_mod_mod] at hrotate
    rw [shiftFlags]
    simp only [Width.toNat_of_truncate, Width.toNat_ofNat, Width.toNat_truncate, w.modulus_eq_two_pow]
    exact hrotate

/-- The bit of a truncated word that a mask with one bit shows. -/
theorem and_ne_zero_eq_testBit {b v : UInt64} {k : Nat} (hb : b.toNat = 2 ^ k) :
    decide (w.truncate v &&& b ≠ 0) = (w.toNat (w.truncate v)).testBit k := by
  rw [Width.toNat_of_truncate, ← w.toNat_truncate, Bool.eq_iff_iff, decide_eq_true_eq,
    and_ne_zero_iff hb]

/-- The carry flag of every kind of shift is the last bit that was moved out. -/
theorem carry_shiftFlags (op : ShiftOp) (n : Nat) :
    (shiftFlags op f w a n).2.carry = op.lastOut w a n (shiftFlags op f w a n).1 := by
  cases op with
  | shl =>
    show ((w.truncate a).toNat <<< n).testBit w.bits = _
    rw [Nat.testBit_shiftLeft, w.toNat_truncate]
    rfl
  | shr =>
    show (w.truncate a).toNat.testBit (n - 1) = _
    rw [w.toNat_truncate]
    rfl
  | sar =>
    show decide ((w.toInt (w.truncate a) >>> (n - 1)) % 2 = 1) = _
    rw [Bool.eq_iff_iff, decide_eq_true_eq, Width.toInt_of_truncate, Int.shiftRight_eq_div_pow, lastOut]
    push_cast
    -- beyond the width both read the sign bit
    by_cases hk : n - 1 < w.bits
    · rw [w.testBit_toInt a hk, Nat.min_eq_left (by omega)]
    · rw [w.testBit_toInt_of_le a (Nat.not_lt.mp hk), Nat.min_eq_right (by omega)]
  | rol =>
    refine Eq.trans ?_ (and_ne_zero_eq_testBit w (b := 1) rfl)
    rw [decide_not, ← beq_eq_decide]
    rfl
  | ror => exact and_ne_zero_eq_testBit w w.toNat_signBit

/-! ### One shift behind another -/

/-- Shifts, unlike rotations, lose bits. -/
def Loses : ShiftOp → Prop
  | shl | shr | sar => True
  | rol | ror => False

section
variable {op : ShiftOp} {w} {a b c : UInt64} {n m : Nat}

/-- The number that a shift leaves is decided. -/
theorem toNat_eq_of_isShift (hop : op.Loses) (hb : op.IsShift w a n b) (hc : op.IsShift w a n c) :
    w.toNat b = w.toNat c := by
  cases op with
  | shl | shr => exact hb.trans hc.symm
  | sar => exact_mod_cast hb.trans hc.symm
  | rol | ror => exact absurd hop id

/-- A quotient with sign is a form of the width. -/
theorem toInt_of_isShift_sar (h : sar.IsShift w a n b) : w.toInt b = w.toInt a / 2 ^ n := by
  have hbounds := w.toInt_bounds a
  have hfits : ¬ Overflows w.bits (w.toInt a / 2 ^ n) := by
    have hpos : (0 : Int) < 2 ^ n := by positivity
    have hone : (1 : Int) ≤ 2 ^ n := hpos
    rw [overflows_iff, Int.ediv_lt_iff_lt_mul hpos, Int.le_ediv_iff_mul_le hpos]
    generalize ((2 ^ (w.bits - 1) : Nat) : Int) = half at hbounds
    generalize (2 : Int) ^ n = p at hpos hone
    -- a quotient is not farther from zero than the number
    rintro (hlow | hhigh) <;> nlinarith
  have hpow : (2 : Int) ^ w.bits = w.modulus := by
    rw [w.modulus_eq_two_pow]
    push_cast
    rfl
  rw [IsShift, hpow] at h
  rw [Width.toInt, h, Int.emod_bmod, w.bmod_modulus_eq_iff.mpr hfits]

/-- **Sequences.** Shifts one behind the other shift by the sum of their counts. -/
theorem IsShift.add (hop : op.Loses) (hb : op.IsShift w a n b) (hc : op.IsShift w b m c) :
    op.IsShift w a (n + m) c := by
  cases op with
  | shl =>
    rw [IsShift] at hb hc ⊢
    rw [hc, hb, Nat.mod_mul_mod, pow_add, mul_assoc]
  | shr =>
    rw [IsShift] at hb hc ⊢
    rw [hc, hb, Nat.div_div_eq_div_mul, pow_add]
  | sar =>
    have hsigned := toInt_of_isShift_sar hb
    rw [IsShift] at hc ⊢
    rw [hc, hsigned, Int.ediv_ediv_of_nonneg (by positivity), pow_add]
  | rol | ror => exact absurd hop id

/-- A rotation back restores the number. -/
theorem IsShift.restore (hb : rol.IsShift w a n b) (hc : ror.IsShift w b n c) :
    w.toNat c = w.toNat a := by
  refine Nat.eq_of_testBit_eq fun j => ?_
  by_cases hj : j < w.bits
  · rw [hc j hj, hb j hj]
  · -- above the width there are no bits
    have hzero : ∀ x : UInt64, (w.toNat x).testBit j = false := fun x =>
      Nat.testBit_lt_two_pow
        ((w.toNat_lt_two_pow x).trans_le (Nat.pow_le_pow_right (by decide) (Nat.not_lt.mp hj)))
    rw [hzero, hzero]

end

/-! ### Main statement -/

/-- A shift by any count is one by the masked count. -/
theorem isShift_apply (op : ShiftOp) (count : Nat) :
    op.IsShift w a (maskedCount w count) (op.apply f w a count).1 := by
  rw [apply]
  split
  · next h =>
    rw [h]
    exact isShift_zero w a op
  · exact isShift_shiftFlags f w a op _

/-- What shifts and rotations have to be at a width, for every value, every count and all flags before. Of a count
    the low five bits count, and six at 64 bits. -/
structure Exact (op : ShiftOp) (w : Width) : Prop where
  value : ∀ f a count, op.IsShift w a (count % (if w = .w64 then 64 else 32)) (op.apply f w a count).1
  carry : ∀ f a count, count % (if w = .w64 then 64 else 32) ≠ 0 →
    (op.apply f w a count).2.carry =
      op.lastOut w a (count % (if w = .w64 then 64 else 32)) (op.apply f w a count).1
  /-- By a count of which no bit counts nothing is changed. -/
  unchanged : ∀ f a count, count % (if w = .w64 then 64 else 32) = 0 → op.apply f w a count = (a, f)
  /-- A rotation back restores the value. -/
  restore : op = .rol → ∀ f g a count,
    w.toNat (ShiftOp.ror.apply g w (op.apply f w a count).1 count).1 = w.toNat a
  /-- Two shifts leave what one by the sum of their counts leaves, as long as the sum is not masked. -/
  compose : op.Loses → ∀ f g h a n m, n + m < (if w = .w64 then 64 else 32) →
    w.toNat (op.apply g w (op.apply f w a n).1 m).1 = w.toNat (op.apply h w a (n + m)).1

/-- **Shifts and rotations.** -/
theorem exact (op : ShiftOp) (w : Width) : op.Exact w where
  value f a count := isShift_apply f w a op count
  carry f a count hne := by
    have hmasked : maskedCount w count ≠ 0 := hne
    rw [apply, if_neg hmasked]
    exact carry_shiftFlags f w a op _
  unchanged f a count hzero := if_pos hzero
  restore hop f g a count := by
    subst hop
    exact (isShift_apply f w a .rol count).restore (isShift_apply g w _ .ror count)
  compose hop f g h a n m hlt := by
    have hmask : ∀ k ≤ n + m, maskedCount w k = k := fun k hk => Nat.mod_eq_of_lt (hk.trans_lt hlt)
    have hfirst := isShift_apply f w a op n
    have hsecond := isShift_apply g w (op.apply f w a n).1 op m
    have hboth := isShift_apply h w a op (n + m)
    rw [hmask _ (by omega)] at hfirst hsecond hboth
    exact toNat_eq_of_isShift hop (hfirst.add hop hsecond) hboth

end ShiftOp

end Amd64
