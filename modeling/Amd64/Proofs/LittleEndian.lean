import Amd64.Bytes
import Amd64.Width
import Mathlib.Tactic.Ring

namespace Amd64

/-!
# Bounds and round trips of little-endian numbers

* `LittleEndian.value_lt` — how large a number of `n` digits is;
* `LittleEndian.value_bytes` — `n` digits keep a number modulo `256 ^ n`;
* `LittleEndian.bytes_add`, `LittleEndian.getElem_bytes` — the digits of a number in two parts, and one by one;
* `LittleEndian.value_take_drop` — the number that digits in the middle of others stand for.
-/

namespace LittleEndian

/-- A string of bytes stands for a number below a power of 256. -/
theorem value_lt (bs : List UInt8) : value bs < 256 ^ bs.length := by
  induction bs with
  | nil => simp
  | cons b bs ih =>
    have hb := b.toNat_lt
    rw [value_cons, List.length_cons, pow_succ]
    omega

/-- `n` digits keep the number modulo `256 ^ n`. -/
theorem value_bytes (n v : Nat) : value (bytes n v) = v % 256 ^ n := by
  induction n generalizing v with
  | zero => simp [bytes, Nat.mod_one]
  | succ n ih =>
    have hsplit : v % 256 ^ (n + 1) = v % 256 + 256 * (v / 256 % 256 ^ n) := by
      rw [Nat.pow_succ', Nat.mod_mul]
    rw [bytes, value_cons, ih, UInt8.toNat_ofNat', hsplit]

/-- The digits of a number, in two parts. -/
theorem bytes_add (m n v : Nat) : bytes (m + n) v = bytes m v ++ bytes n (v / 256 ^ m) := by
  induction m generalizing v with
  | zero => rw [Nat.zero_add, pow_zero, Nat.div_one]; rfl
  | succ m ih =>
    rw [Nat.succ_add, bytes, bytes, ih, Nat.div_div_eq_div_mul, ← Nat.pow_succ']
    rfl

/-- Each byte is a digit. -/
theorem getElem_bytes {n v i : Nat} (hi : i < (bytes n v).length) :
    (bytes n v)[i] = UInt8.ofNat (v / 256 ^ i) := by
  induction n generalizing v i with
  | zero => exact absurd hi (Nat.not_lt_zero i)
  | succ n ih =>
    cases i with
    | zero => rw [pow_zero, Nat.div_one]; rfl
    | succ i =>
      have hrest := ih (v := v / 256) (i := i) (Nat.lt_of_succ_lt_succ hi)
      rwa [Nat.div_div_eq_div_mul, ← Nat.pow_succ'] at hrest

/-- The number that some digits in the middle stand for. -/
theorem value_take_drop (k n m v : Nat) :
    value (((bytes (k + n + m) v).drop k).take n) = v / 256 ^ k % 256 ^ n := by
  rw [Nat.add_assoc, bytes_add, List.drop_left' (length_bytes k v), bytes_add,
    List.take_left' (length_bytes n _), value_bytes]

end LittleEndian

/-- A byte has eight bits. -/
theorem Width.bits_eq (w : Width) : w.bits = 8 * w.bytes := by
  cases w <;> rfl

/-- As many numbers as strings of this width. -/
theorem Width.modulus_eq (w : Width) : w.modulus = 256 ^ w.bytes := by
  cases w <;> rfl

/-- The digits of a word at a width. -/
theorem Width.value_bytes (w : Width) (v : UInt64) :
    LittleEndian.value (LittleEndian.bytes w.bytes v.toNat) = w.toNat v := by
  rw [LittleEndian.value_bytes, Width.toNat, modulus_eq]

end Amd64
