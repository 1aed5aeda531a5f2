namespace Amd64

/-!
# Pages

Allocation and protection work on whole pages of 4096 bytes.
-/

namespace Page

/-- Number of address bits within a page. -/
def shift : Nat := 12

/-- Bytes in a page. -/
def size : UInt64 := 4096

/-- The first address of the page that holds `a`. -/
def floor (a : UInt64) : UInt64 :=
  a &&& ~~~(size - 1)

theorem toNat_floor (a : UInt64) : (floor a).toNat = a.toNat / 4096 * 4096 := by
  have hmask : (~~~(size - 1)).toNat = 2 ^ 64 - (4095 + 1) := by decide
  have hlow : (4095 : Nat) = 2 ^ 12 - 1 := rfl
  have hpage : (4096 : Nat) = 2 ^ 12 := rfl
  rw [floor, UInt64.toNat_and, hmask, hpage]
  apply Nat.eq_of_testBit_eq
  intro i
  have hsmall : 64 ≤ i → a.toNat.testBit i = false := fun hi =>
    Nat.testBit_lt_two_pow (Nat.lt_of_lt_of_le a.toNat_lt (Nat.pow_le_pow_right (by decide) hi))
  rw [Nat.testBit_and, Nat.testBit_two_pow_sub_succ (by decide), hlow, Nat.testBit_two_pow_sub_one,
    Nat.testBit_mul_two_pow, Nat.testBit_div_two_pow]
  by_cases hi : 12 ≤ i
  · by_cases h64 : i < 64
    · have := Nat.sub_add_cancel hi
      simp [hi, h64, Nat.not_lt.mpr hi]
    · simp [hi, h64, hsmall (Nat.not_lt.mp h64)]
  · simp [hi, Nat.not_le.mp hi]

/-- `n` rounded up to whole pages, unless the result needs more than 64 bits. -/
def ceil? (n : UInt64) : Option UInt64 :=
  if n.toNat + 4095 < UInt64.size then some (floor (n + (size - 1))) else none

theorem ceil?_eq_some_iff {n len : UInt64} :
    ceil? n = some len ↔
      n.toNat + 4095 < UInt64.size ∧ len.toNat = (n.toNat + 4095) / 4096 * 4096 := by
  unfold ceil?
  split
  · next h =>
    have hsum : (n + (size - 1)).toNat = n.toNat + 4095 := by
      rw [UInt64.toNat_add]
      exact Nat.mod_eq_of_lt h
    rw [Option.some_inj, ← UInt64.toNat_inj, toNat_floor, hsum]
    exact ⟨fun e => ⟨h, e.symm⟩, fun e => e.2.symm⟩
  · next h => simp [h]

/-- `n` rounded up to whole pages; the last page boundary stands for results beyond 64 bits. -/
def ceil (n : UInt64) : UInt64 :=
  (ceil? n).getD (floor (-1))

end Page

end Amd64
