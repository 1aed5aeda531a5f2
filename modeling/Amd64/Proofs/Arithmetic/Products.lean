import Amd64.Proofs.Arithmetic.Limbs

namespace Amd64

/-!
# Products and quotients as integers

* `toNat_high_mulWide`, `toInt_high_imulWide`, … — the halves of a product, and whether the low one holds
  all of it;
* `Width.double`, `Width.signedDouble`           — the number that two halves make up;
* `double_mulWide`, `signedDouble_imulWide`      — the halves of a product make up the product;
* `IsQuotient`                                   — division with rounding toward zero;
* `divWide?_eq_some`, `idivWide?_eq_some`, …     — quotients and remainders, and when there are none.
-/

namespace Width

variable (w : Width) (high low : UInt64)

/-- The number with the halves `high` and `low`. -/
def double : Nat :=
  w.toNat high * 2 ^ w.bits + w.toNat low

/-- The number with the halves `high` and `low` in two's complement. -/
def signedDouble : Int :=
  w.toInt high * 2 ^ w.bits + w.toNat low

/-- The upper word has the sign. -/
theorem signedDouble_eq :
    w.signedDouble high low = w.toInt high * w.modulus + w.toNat low := by
  rw [signedDouble, w.modulus_eq_two_pow]
  push_cast
  rfl

/-- The sign is in the high half. -/
theorem bmod_double : (w.double high low : Int).bmod (2 ^ (2 * w.bits)) = w.signedDouble high low := by
  have hlow : 0 ≤ (w.toNat low : Int) ∧ (w.toNat low : Int) < (2 ^ w.bits : Nat) :=
    ⟨by omega, by exact_mod_cast w.toNat_lt_two_pow low⟩
  have hmodulus : 2 ^ (2 * w.bits) = 2 ^ w.bits * (2 * 2 ^ (w.bits - 1)) := by
    rw [Nat.two_mul, pow_add, ← w.modulus_eq_two_mul, w.modulus_eq_two_pow]
  -- the low half is below the modulus of the width, so only the high half can wrap
  have hsplit := bmod_add_mul (i := w.toNat high) (h := 2 ^ (w.bits - 1)) hlow
  rw [← w.modulus_eq_two_mul, ← toInt, w.modulus_eq_two_mul, ← hmodulus] at hsplit
  rw [double, signedDouble, Nat.mul_comm, Nat.add_comm]
  push_cast at hsplit ⊢
  rw [hsplit]
  ring

/-- The halves of a number are decided by it. -/
theorem double_inj {w : Width} {high low high' low' : UInt64}
    (h : w.double high low = w.double high' low') :
    w.toNat high = w.toNat high' ∧ w.toNat low = w.toNat low' := by
  have hl : w.toNat low < 2 ^ w.bits := w.toNat_lt_two_pow low
  have hl' : w.toNat low' < 2 ^ w.bits := w.toNat_lt_two_pow low'
  have hdiv := congrArg (· / 2 ^ w.bits) h
  have hmod := congrArg (· % 2 ^ w.bits) h
  simp only [double, Nat.mul_comm _ (2 ^ w.bits), Nat.mul_add_div (Nat.two_pow_pos _),
    Nat.mul_add_mod, Nat.div_eq_of_lt hl, Nat.div_eq_of_lt hl', Nat.mod_eq_of_lt hl,
    Nat.mod_eq_of_lt hl', Nat.add_zero] at hdiv hmod
  exact ⟨hdiv, hmod⟩

/-- A number that has a form of the width is kept by cutting it to the width. -/
theorem toInt_truncate_ofInt {i : Int} (h : ¬ Overflows w.bits i) :
    w.toInt (w.truncate (UInt64.ofInt i)) = i := by
  rw [toInt_of_truncate, toInt_ofInt, w.bmod_modulus_eq_iff.mpr h]

/-- The test whether an integer fits. -/
theorem fits_eq_false_iff {i : Int} : w.fits i = false ↔ Overflows w.bits i := by
  rw [overflows_iff, fits, w.modulus_eq_two_mul, Bool.and_eq_false_iff, decide_eq_false_iff_not,
    decide_eq_false_iff_not]
  push_cast
  omega

end Width

/-! ### Products -/

section
variable (w : Width) (a b : UInt64)

/-- The lower half of a product without signs. -/
theorem toNat_low_mulWide : (mulWide w a b).low.toNat = w.toNat a * w.toNat b % 2 ^ w.bits := by
  rw [mulWide, Width.toNat_truncate, Width.toNat_ofNat, w.modulus_eq_two_pow]

/-- The upper half of a product without signs. -/
theorem toNat_high_mulWide : (mulWide w a b).high.toNat = w.toNat a * w.toNat b / 2 ^ w.bits := by
  have hhalf : w.toNat a * w.toNat b / w.modulus < w.modulus :=
    Nat.div_lt_of_lt_mul (Nat.mul_lt_mul'' (w.toNat_lt a) (w.toNat_lt b))
  rw [mulWide, Width.toNat_truncate, Width.toNat_ofNat, Nat.shiftRight_eq_div_pow,
    ← w.modulus_eq_two_pow, Nat.mod_eq_of_lt hhalf]

/-- The overflow says that the upper half counts. -/
theorem overflow_mulWide :
    (mulWide w a b).overflow = true ↔ 2 ^ w.bits ≤ w.toNat a * w.toNat b := by
  have hpos : 0 < 2 ^ w.bits := Nat.two_pow_pos _
  rw [mulWide, decide_eq_true_eq, Nat.shiftRight_eq_div_pow, ne_eq, Nat.div_eq_zero_iff]
  omega

/-- The lower half of a product with signs. -/
theorem toNat_low_imulWide :
    ((imulWide w a b).low.toNat : Int) = w.toInt a * w.toInt b % 2 ^ w.bits := by
  rw [imulWide, Width.toNat_truncate, Width.toNat_ofInt, w.modulus_eq_two_pow]
  push_cast
  rfl

/-- The overflow says that the product needs more bits than one word has. -/
theorem overflow_imulWide :
    (imulWide w a b).overflow = true ↔ Overflows w.bits (w.toInt a * w.toInt b) := by
  rw [imulWide, decide_eq_true_eq, Width.toInt_of_truncate, Width.toInt_ofInt, ne_eq,
    Width.bmod_modulus_eq_iff, not_not]

/-- The square of the smallest number is the largest product, and the high half has room for it. -/
theorem not_overflows_high : ¬ Overflows w.bits (w.toInt a * w.toInt b / 2 ^ w.bits) := by
  have ha := w.toInt_bounds a
  have hb := w.toInt_bounds b
  have hpow : (2 : Int) ^ w.bits = 2 * (2 ^ (w.bits - 1) : Nat) := by
    exact_mod_cast w.modulus_eq_two_pow.symm.trans w.modulus_eq_two_mul
  have hpos : (0 : Int) < (2 ^ (w.bits - 1) : Nat) := by positivity
  rw [overflows_iff, hpow, Int.ediv_lt_iff_lt_mul (by omega), Int.le_ediv_iff_mul_le (by omega)]
  -- the product is between `-half * half` and `half * half`, and the bounds are twice as far
  generalize ((2 ^ (w.bits - 1) : Nat) : Int) = half at ha hb hpos
  rintro (h | h) <;> nlinarith

/-- The upper half of a product with signs, rounded down. -/
theorem toInt_high_imulWide :
    w.toInt (imulWide w a b).high = w.toInt a * w.toInt b / 2 ^ w.bits := by
  rw [imulWide, Int.shiftRight_eq_div_pow]
  push_cast
  exact w.toInt_truncate_ofInt (not_overflows_high w a b)

/-- **Products.** The halves of an unsigned product are all of it. -/
theorem double_mulWide :
    w.double (mulWide w a b).high (mulWide w a b).low = w.toNat a * w.toNat b := by
  have hhigh : w.toNat (mulWide w a b).high = w.toNat a * w.toNat b / 2 ^ w.bits := by
    rw [← toNat_high_mulWide, mulWide, Width.toNat_of_truncate, Width.toNat_truncate]
  have hlow : w.toNat (mulWide w a b).low = w.toNat a * w.toNat b % 2 ^ w.bits := by
    rw [← toNat_low_mulWide, mulWide, Width.toNat_of_truncate, Width.toNat_truncate]
  rw [Width.double, hhigh, hlow, Nat.div_add_mod']

/-- So are those of a signed product. -/
theorem signedDouble_imulWide :
    w.signedDouble (imulWide w a b).high (imulWide w a b).low = w.toInt a * w.toInt b := by
  have hlow : (w.toNat (imulWide w a b).low : Int) = w.toInt a * w.toInt b % 2 ^ w.bits := by
    rw [← toNat_low_imulWide, imulWide, Width.toNat_of_truncate, Width.toNat_truncate]
  rw [Width.signedDouble, toInt_high_imulWide, hlow, Int.ediv_mul_add_emod]

end

/-! ### Quotients -/

/-- `q` and `r` are quotient, rounded toward zero, and remainder of `n` and `d`. -/
structure IsQuotient (n d q r : Int) : Prop where
  split : n = q * d + r
  small : |r| < |d|
  sign : r = 0 ∨ r.sign = n.sign

/-- Division that cuts towards zero meets the conditions on quotient and remainder. -/
theorem isQuotient_tdiv (n : Int) {d : Int} (hd : d ≠ 0) :
    IsQuotient n d (n.tdiv d) (n.tmod d) where
  split := by rw [mul_comm, Int.mul_tdiv_add_tmod]
  small := by
    have hlt := Nat.mod_lt n.natAbs (Int.natAbs_pos.mpr hd)
    rw [← Int.natAbs_tmod] at hlt
    rw [Int.abs_eq_natAbs, Int.abs_eq_natAbs]
    exact_mod_cast hlt
  sign := by
    rw [Int.sign_tmod, ← Int.dvd_iff_tmod_eq_zero]
    by_cases h : d ∣ n <;> simp [h]

section
variable (w : Width) (high low d : UInt64)

/-- There is no quotient by zero, and none that is too large. -/
theorem divWide?_eq_none_iff : divWide? w high low d = none ↔
    w.toNat d = 0 ∨ 2 ^ w.bits ≤ w.double high low / w.toNat d := by
  rw [divWide?, Width.double, w.modulus_eq_two_pow]
  split <;> simp_all

/-- A number of the width is a word. -/
theorem Width.toNat_ofNat_of_lt {n : Nat} (h : n < w.modulus) : (UInt64.ofNat n).toNat = n := by
  rw [UInt64.toNat_ofNat']
  exact Nat.mod_eq_of_lt (h.trans_le (Nat.le_of_dvd (by decide) w.modulus_dvd_size))

/-- **Unsigned division.** -/
theorem divWide?_eq_some {q r : UInt64} (h : divWide? w high low d = some (q, r)) :
    w.double high low = q.toNat * w.toNat d + r.toNat ∧ r.toNat < w.toNat d ∧
      q.toNat < 2 ^ w.bits := by
  have hd := w.toNat_lt d
  rw [divWide?] at h
  split at h
  · cases h
  · next hok =>
    obtain ⟨rfl, rfl⟩ := Prod.mk.inj (Option.some.inj h)
    obtain ⟨hne, hfits⟩ := not_or.mp hok
    have hr := Nat.mod_lt (w.toNat high * w.modulus + w.toNat low) (Nat.pos_of_ne_zero hne)
    rw [w.toNat_ofNat_of_lt (Nat.not_le.mp hfits), w.toNat_ofNat_of_lt (hr.trans hd),
      ← w.modulus_eq_two_pow, Width.double, ← w.modulus_eq_two_pow, Nat.div_add_mod']
    exact ⟨rfl, hr, Nat.not_le.mp hfits⟩

/-- There is no quotient with a sign by zero, and none that does not fit. -/
theorem idivWide?_eq_none_iff : idivWide? w high low d = none ↔
    w.toInt d = 0 ∨ Overflows w.bits ((w.signedDouble high low).tdiv (w.toInt d)) := by
  rw [idivWide?, w.signedDouble_eq]
  split
  · next h => simpa [w.fits_eq_false_iff] using h
  · next h => simpa [w.fits_eq_false_iff] using h

/-- **Signed division.** A remainder is nearer to zero than the divisor, so it has a form of the width. -/
theorem idivWide?_eq_some {q r : UInt64} (h : idivWide? w high low d = some (q, r)) :
    IsQuotient (w.signedDouble high low) (w.toInt d) (w.toInt q) (w.toInt r) ∧
      q.toNat < 2 ^ w.bits ∧ r.toNat < 2 ^ w.bits := by
  rw [idivWide?, ← w.signedDouble_eq] at h
  split at h
  · cases h
  · next hok =>
    obtain ⟨rfl, rfl⟩ := Prod.mk.inj (Option.some.inj h)
    obtain ⟨hne, hfits⟩ := not_or.mp hok
    rw [Bool.not_eq_true', w.fits_eq_false_iff] at hfits
    have hquotient := isQuotient_tdiv (w.signedDouble high low) hne
    have hremainder : ¬ Overflows w.bits ((w.signedDouble high low).tmod (w.toInt d)) := by
      have hd := w.toInt_bounds d
      have hsmall := abs_lt.mp (hquotient.small.trans_le (abs_le.mpr ⟨hd.1, hd.2.le⟩))
      rw [overflows_iff]
      omega
    rw [w.toInt_truncate_ofInt hfits, w.toInt_truncate_ofInt hremainder, w.toNat_truncate,
      w.toNat_truncate, ← w.modulus_eq_two_pow]
    exact ⟨hquotient, w.toNat_lt _, w.toNat_lt _⟩

end

end Amd64
