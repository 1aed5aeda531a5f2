import Amd64.Condition

namespace Amd64

/-!
# Flags

* `Flags`            — the modelled bits of the flag register, also used as a set of flags;
* `Flags.bits`, `Flags.ofBits` — the flags as a number with each flag at its place;
* `Condition.holds`  — whether a condition is true of flags.
-/

/-- The modelled bits of the flag register. -/
structure Flags where
  carry : Bool
  /-- Bit 1, which always reads as one in the register. -/
  reserved : Bool
  parity : Bool
  /-- Carry out of the low four bits. -/
  adjust : Bool
  zero : Bool
  sign : Bool
  /-- String instructions go downwards. -/
  direction : Bool
  overflow : Bool
deriving DecidableEq, Inhabited

namespace Flags

/-- No flag. -/
def empty : Flags := ⟨false, false, false, false, false, false, false, false⟩

/-- The flags of a machine that has not run. -/
def initial : Flags := { empty with reserved := true }

/-- The flags that arithmetic writes. -/
def status : Flags := ⟨true, false, true, true, true, true, false, true⟩

/-- The modelled bits of a number. -/
def ofBits (n : UInt64) : Flags where
  carry := n &&& 0x1 ≠ 0
  reserved := n &&& 0x2 ≠ 0
  parity := n &&& 0x4 ≠ 0
  adjust := n &&& 0x10 ≠ 0
  zero := n &&& 0x40 ≠ 0
  sign := n &&& 0x80 ≠ 0
  direction := n &&& 0x400 ≠ 0
  overflow := n &&& 0x800 ≠ 0

/-- The flags as a number. -/
def bits (f : Flags) : UInt64 :=
  (bif f.carry then 0x1 else 0) ||| (bif f.reserved then 0x2 else 0)
    ||| (bif f.parity then 0x4 else 0) ||| (bif f.adjust then 0x10 else 0)
    ||| (bif f.zero then 0x40 else 0) ||| (bif f.sign then 0x80 else 0)
    ||| (bif f.direction then 0x400 else 0) ||| (bif f.overflow then 0x800 else 0)

@[simp] theorem ofBits_bits (f : Flags) : ofBits f.bits = f := by
  rcases f with ⟨c, r, p, a, z, s, d, o⟩
  revert c r p a z s d o
  decide

/-- The flags as the register holds them, with bit 1 set. -/
def withReserved (f : Flags) : Flags :=
  { f with reserved := true }

/-- Whether all flags of `mask` are set. -/
def contains (f mask : Flags) : Bool :=
  (f.carry || !mask.carry) && (f.reserved || !mask.reserved) && (f.parity || !mask.parity)
    && (f.adjust || !mask.adjust) && (f.zero || !mask.zero) && (f.sign || !mask.sign)
    && (f.direction || !mask.direction) && (f.overflow || !mask.overflow)

/-- Sets the flags of `mask` to `value`. -/
def assign (f mask : Flags) (value : Bool) : Flags where
  carry := bif mask.carry then value else f.carry
  reserved := bif mask.reserved then value else f.reserved
  parity := bif mask.parity then value else f.parity
  adjust := bif mask.adjust then value else f.adjust
  zero := bif mask.zero then value else f.zero
  sign := bif mask.sign then value else f.sign
  direction := bif mask.direction then value else f.direction
  overflow := bif mask.overflow then value else f.overflow

/-- The set of flags of a name. -/
def named? : String → Option Flags
  | "CF" => some { empty with carry := true }
  | "RESERVED1" => some { empty with reserved := true }
  | "PF" => some { empty with parity := true }
  | "AF" => some { empty with adjust := true }
  | "ZF" => some { empty with zero := true }
  | "SF" => some { empty with sign := true }
  | "DF" => some { empty with direction := true }
  | "OF" => some { empty with overflow := true }
  | "STATUS" => some status
  | _ => none

end Flags

/-- Whether a condition is true of flags. -/
def Condition.holds (c : Condition) (f : Flags) : Bool :=
  match c with
  | o => f.overflow
  | no => !f.overflow
  | b => f.carry
  | ae => !f.carry
  | e => f.zero
  | ne => !f.zero
  | be => f.carry || f.zero
  | a => !f.carry && !f.zero
  | s => f.sign
  | ns => !f.sign
  | p => f.parity
  | np => !f.parity
  | l => f.sign != f.overflow
  | ge => f.sign == f.overflow
  | le => f.zero || f.sign != f.overflow
  | g => !f.zero && f.sign == f.overflow

end Amd64
