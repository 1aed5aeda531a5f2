namespace Amd64

/-!
# Operand widths

An integer operation works on 8, 16, 32 or 64 bits of a 64-bit word.

* `Width`             — the four widths;
* `Width.truncate`    — the low bits of a word, zero-extended;
* `Width.signExtend`  — the low bits of a word, sign-extended.
-/

/-- Width of an integer operation. -/
inductive Width where
  | w8
  | w16
  | w32
  | w64
deriving DecidableEq, Inhabited

namespace Width

/-- All widths, narrowest first. -/
def all : List Width := [w8, w16, w32, w64]

/-- Number of bits. -/
def bits : Width → Nat
  | w8 => 8
  | w16 => 16
  | w32 => 32
  | w64 => 64

/-- Number of bytes. -/
def bytes : Width → Nat
  | w8 => 1
  | w16 => 2
  | w32 => 4
  | w64 => 8

/-- The word whose low `bits` bits are one and whose other bits are zero. -/
def mask : Width → UInt64
  | w8 => 0xff
  | w16 => 0xffff
  | w32 => 0xffffffff
  | w64 => 0xffffffffffffffff

/-- The word that holds the sign bit of the width and nothing else. -/
def signBit : Width → UInt64
  | w8 => 0x80
  | w16 => 0x8000
  | w32 => 0x80000000
  | w64 => 0x8000000000000000

/-- The low bits of `v`, zero-extended to 64 bits. -/
def truncate (w : Width) (v : UInt64) : UInt64 :=
  v &&& w.mask

/-- The low bits of `v`, sign-extended to 64 bits. -/
def signExtend (w : Width) (v : UInt64) : UInt64 :=
  if v &&& w.signBit = 0 then v &&& w.mask else v ||| ~~~w.mask

/-- How many numbers of the width there are. -/
def modulus : Width → Nat
  | w8 => 0x100
  | w16 => 0x10000
  | w32 => 0x100000000
  | w64 => 0x10000000000000000

/-- The low bits of `v` as a natural number. -/
def toNat (w : Width) (v : UInt64) : Nat :=
  v.toNat % w.modulus

/-- The low bits of `v` as a two's-complement integer. -/
def toInt (w : Width) (v : UInt64) : Int :=
  (w.toNat v : Int).bmod w.modulus

theorem toNat_lt (w : Width) (v : UInt64) : w.toNat v < w.modulus :=
  Nat.mod_lt _ (by cases w <;> decide)

/-- Cutting a word to a width leaves the number that the width sees. -/
theorem toNat_truncate (w : Width) (v : UInt64) : (w.truncate v).toNat = w.toNat v := by
  rw [truncate, UInt64.toNat_and, toNat]
  cases w
  · exact Nat.and_two_pow_sub_one_eq_mod _ 8
  · exact Nat.and_two_pow_sub_one_eq_mod _ 16
  · exact Nat.and_two_pow_sub_one_eq_mod _ 32
  · exact Nat.and_two_pow_sub_one_eq_mod _ 64

@[simp] theorem truncate_truncate (w : Width) (v : UInt64) :
    w.truncate (w.truncate v) = w.truncate v := by
  simp [truncate, UInt64.and_assoc]

/-- Whether an integer has a two's-complement form of the width. -/
def fits (w : Width) (n : Int) : Bool :=
  -(w.modulus : Int) ≤ 2 * n && 2 * n < w.modulus

/-- The width of `n` bytes, if there is one. -/
def ofBytes? : Nat → Option Width
  | 1 => some w8
  | 2 => some w16
  | 4 => some w32
  | 8 => some w64
  | _ => none

/-- The width of `n` bits, if there is one. -/
def ofBits? : Nat → Option Width
  | 8 => some w8
  | 16 => some w16
  | 32 => some w32
  | 64 => some w64
  | _ => none

@[simp] theorem ofBytes?_bytes (w : Width) : ofBytes? w.bytes = some w := by
  cases w <;> rfl

@[simp] theorem ofBits?_bits (w : Width) : ofBits? w.bits = some w := by
  cases w <;> rfl

end Width

end Amd64
