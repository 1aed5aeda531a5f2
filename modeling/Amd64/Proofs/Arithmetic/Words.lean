import Amd64.Proofs.Arithmetic.Integers
import Mathlib.Data.Int.ModEq

namespace Amd64

/-!
# Words as numbers

Words are added and multiplied modulo `2 ^ 64`, so sums and products are compared as congruences and
reduced once at the end.

* `toNat_eq_emod`         — a word is the number that it is congruent to, reduced;
* `toNat_add_modEq`, `toNat_mul_modEq` — sums and products;
* `toNat_toUInt64_modEq`, `Width.toNat_signExtend_modEq` — sign-extended numbers.
-/

/-- A word is determined by its number up to whole turns. -/
theorem toNat_eq_emod {x : UInt64} {i : Int} (h : (x.toNat : Int) ≡ i [ZMOD 2 ^ 64]) :
    (x.toNat : Int) = i % 2 ^ 64 := by
  have hx := x.toNat_lt
  have hmod : (x.toNat : Int) % 2 ^ 64 = x.toNat := Int.emod_eq_of_lt (by omega) (by omega)
  exact hmod.symm.trans h

/-- A displacement keeps its sign when it is extended. -/
theorem toNat_toUInt64_modEq (d : Int32) : (d.toInt64.toUInt64.toNat : Int) ≡ d.toInt [ZMOD 2 ^ 64] := by
  have hbmod : d.toInt64.toInt = (d.toInt64.toUInt64.toNat : Int).bmod (2 ^ 64) :=
    BitVec.toInt_eq_toNat_bmod d.toInt64.toBitVec
  rw [← Int32.toInt_toInt64, hbmod]
  exact (Int.bmod_emod).symm

/-- Words are added up to whole turns. -/
theorem toNat_add_modEq (x y : UInt64) : ((x + y).toNat : Int) ≡ x.toNat + y.toNat [ZMOD 2 ^ 64] := by
  rw [UInt64.toNat_add]
  push_cast
  exact Int.mod_modEq _ _

/-- Words are multiplied up to whole turns. -/
theorem toNat_mul_modEq (x y : UInt64) : ((x * y).toNat : Int) ≡ x.toNat * y.toNat [ZMOD 2 ^ 64] := by
  rw [UInt64.toNat_mul]
  push_cast
  exact Int.mod_modEq _ _

/-- Numbers are stored up to whole turns. -/
theorem toNat_ofNat_modEq (n : Nat) : ((UInt64.ofNat n).toNat : Int) ≡ n [ZMOD 2 ^ 64] := by
  rw [UInt64.toNat_ofNat']
  push_cast
  exact Int.mod_modEq _ _

/-! ### Sign extension -/

/-- To set bits is to add them to the bits around them. -/
theorem or_not_eq_add (v m : UInt64) : v ||| ~~~m = (v &&& m) + ~~~m := by
  apply UInt64.toBitVec_inj.mp
  have hdisjoint : (v.toBitVec &&& m.toBitVec) &&& ~~~m.toBitVec = 0#64 := by
    rw [BitVec.and_assoc, BitVec.and_not_self]
    exact BitVec.and_zero
  show v.toBitVec ||| ~~~m.toBitVec = (v.toBitVec &&& m.toBitVec) + ~~~m.toBitVec
  rw [BitVec.add_eq_or_of_and_eq_zero _ _ hdisjoint]
  ext k hk
  simp only [BitVec.getElem_or, BitVec.getElem_and, BitVec.getElem_not]
  cases v.toBitVec[k] <;> cases m.toBitVec[k] <;> rfl

namespace Width

variable (w : Width) (v : UInt64)

/-- The bits outside of a width. -/
theorem toNat_not_mask : (~~~w.mask).toNat + w.modulus = 2 ^ 64 := by
  cases w <;> decide

/-- The low bits as an integer differ from the low bits as a number only if the sign bit is set. -/
theorem toInt_eq : w.toInt v = if v &&& w.signBit = 0 then (w.toNat v : Int) else w.toNat v - w.modulus := by
  have hlt := w.toNat_lt v
  have hsign := w.and_signBit_ne_zero_iff v
  have hcases : w.toInt v = w.toNat v ∨ w.toInt v = w.toNat v - w.modulus := by
    rw [modulus_eq_two_mul] at hlt
    rw [toInt, modulus_eq_two_mul, bmod_two_mul (by omega) (by omega)]
    split_ifs <;> omega
  split_ifs with hzero
  · have hnonneg := mt hsign.mpr (not_not.mpr hzero)
    omega
  · have hneg := hsign.mp hzero
    omega

/-- Sign extension keeps the number that the low bits are. -/
theorem toNat_signExtend_modEq : ((w.signExtend v).toNat : Int) ≡ w.toInt v [ZMOD 2 ^ 64] := by
  have hlow : (v &&& w.mask).toNat = w.toNat v := w.toNat_truncate v
  have hmask := w.toNat_not_mask
  rw [signExtend, toInt_eq]
  split_ifs with hzero
  · rw [hlow]
  · rw [or_not_eq_add]
    refine (toNat_add_modEq _ _).trans ?_
    have hshift : ((~~~w.mask).toNat : Int) ≡ -w.modulus [ZMOD 2 ^ 64] :=
      Int.modEq_iff_dvd.mpr ⟨-1, by omega⟩
    rw [hlow, Int.sub_eq_add_neg]
    exact hshift.add_left _

end Width

end Amd64
