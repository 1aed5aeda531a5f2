import Amd64.Semantics.Integer
import Mathlib.Data.Nat.Bitwise

namespace Amd64

/-!
# Views of registers

A view of a register shows some of its bits, and a write through the view replaces these bits.

* `Reg.shift`                      — the lowest bit of the register that is seen;
* `Cpu.toNat_readReg`              — what is seen;
* `Cpu.getLsbD_writeReg`           — the bits of a register after a write;
* `Cpu.readReg_writeReg_self`      — what was written is read;
* `ShiftCount.given`               — the count that a shift is given, of which it masks a part.
-/

/-- The bit of the register that a view shows as bit 0. -/
def Reg.shift : Reg → Nat
  | low _ _ => 0
  | high _ => 8

/-- Words with the same bits are the same. -/
theorem UInt64.eq_of_getLsbD_eq {a b : UInt64}
    (h : ∀ i < 64, a.toBitVec.getLsbD i = b.toBitVec.getLsbD i) : a = b :=
  UInt64.toBitVec_inj.mp (BitVec.eq_of_getLsbD_eq h)

namespace Width

/-- The mask of a width has its low bits set. -/
theorem getLsbD_mask (w : Width) {i : Nat} (hi : i < 64) :
    w.mask.toBitVec.getLsbD i = decide (i < w.bits) := by
  revert i
  cases w <;> decide

/-- To cut a word is to keep its low bits. -/
theorem getLsbD_truncate (w : Width) (v : UInt64) {i : Nat} (hi : i < 64) :
    (w.truncate v).toBitVec.getLsbD i = (decide (i < w.bits) && v.toBitVec.getLsbD i) := by
  rw [truncate, UInt64.toBitVec_and, BitVec.getLsbD_and, w.getLsbD_mask hi, Bool.and_comm]

end Width

namespace Cpu

/-- A write to a register leaves the others. -/
theorem gpr_writeReg_of_ne (s : Cpu) {r : Reg} {g : Gpr} (h : r.gpr ≠ g) (v : UInt64) :
    (s.writeReg r v).gpr g = s.gpr g := by
  cases r with
  | low g w => cases w <;> exact gpr_setGpr_of_ne s _ h
  | high g => exact gpr_setGpr_of_ne s _ h

variable (s : Cpu) (r : Reg) (v : UInt64)

/-- A view of all bits shows the register. -/
theorem readReg_w64 (g : Gpr) : s.readReg (.low g .w64) = s.gpr g := by
  rw [← UInt64.toNat_inj, readReg, Width.toNat_truncate]
  exact Nat.mod_eq_of_lt (s.gpr g).toNat_lt

/-- A write to a register leaves the flags. -/
theorem flags_writeReg : (s.writeReg r v).flags = s.flags := by
  cases r with
  | low g w => cases w <;> rfl
  | high g => rfl

/-- A write to a register leaves the parts of others. -/
theorem readReg_writeReg_of_ne {q : Reg} (h : r.gpr ≠ q.gpr) :
    (s.writeReg r v).readReg q = s.readReg q := by
  have hgpr := s.gpr_writeReg_of_ne h v
  cases q with
  | low g w => exact congrArg w.truncate hgpr
  | high g => exact congrArg (fun x : UInt64 => (x >>> 8) &&& (0xff : UInt64)) hgpr

/-- **Reads.** A view shows its bits of the register with zeros above them. -/
theorem toNat_readReg :
    (s.readReg r).toNat = (s.gpr r.gpr).toNat / 2 ^ r.shift % 2 ^ r.width.bits := by
  cases r with
  | low g w =>
    rw [readReg, w.toNat_truncate, Reg.shift, Nat.pow_zero, Nat.div_one]
    cases w <;> rfl
  | high g =>
    show (Width.w8.truncate (s.gpr g >>> 8)).toNat = _
    rw [Width.toNat_truncate, Width.toNat, UInt64.toNat_shiftRight, Nat.shiftRight_eq_div_pow]
    rfl

/-- A part of a register has as many bits as it shows. -/
theorem toNat_readReg_lt : (s.readReg r).toNat < 2 ^ r.width.bits := by
  rw [toNat_readReg]
  exact Nat.mod_lt _ (Nat.two_pow_pos _)

/-- The bits of a part are bits of the register. -/
theorem getLsbD_readReg (i : Nat) : (s.readReg r).toBitVec.getLsbD i =
    (decide (i < r.width.bits) && (s.gpr r.gpr).toBitVec.getLsbD (r.shift + i)) := by
  rw [← BitVec.testBit_toNat, ← BitVec.testBit_toNat]
  show (s.readReg r).toNat.testBit i = (_ && (s.gpr r.gpr).toNat.testBit (r.shift + i))
  rw [toNat_readReg, Nat.testBit_mod_two_pow, Nat.testBit_div_two_pow, Nat.add_comm i]

/-- **Writes.** A write replaces the bits of its view. A write to 32 bits clears the others, and any other
write keeps them. -/
theorem getLsbD_writeReg {i : Nat} (hi : i < 64) :
    ((s.writeReg r v).gpr r.gpr).toBitVec.getLsbD i =
      if r.shift ≤ i ∧ i < r.shift + r.width.bits then v.toBitVec.getLsbD (i - r.shift)
      else r.width ≠ .w32 && (s.gpr r.gpr).toBitVec.getLsbD i := by
  have hmerge : ∀ w : Width, ((s.gpr r.gpr &&& ~~~w.mask) ||| w.truncate v).toBitVec.getLsbD i =
      if i < w.bits then v.toBitVec.getLsbD i else (s.gpr r.gpr).toBitVec.getLsbD i := by
    intro w
    rw [UInt64.toBitVec_or, BitVec.getLsbD_or, UInt64.toBitVec_and, BitVec.getLsbD_and,
      UInt64.toBitVec_not, BitVec.getLsbD_not, w.getLsbD_mask hi, w.getLsbD_truncate v hi]
    by_cases h : i < w.bits <;> simp [h, hi]
  cases r with
  | low g w =>
    rw [Reg.shift, Nat.zero_add, Nat.sub_zero]
    cases w with
    | w8 => simpa [writeReg, Reg.gpr, Reg.width] using hmerge .w8
    | w16 => simpa [writeReg, Reg.gpr, Reg.width] using hmerge .w16
    | w32 =>
      rw [writeReg, Reg.gpr, gpr_setGpr_self, Width.getLsbD_truncate _ v hi]
      by_cases h : i < Width.w32.bits <;> simp [Reg.width, h]
    | w64 => simp [writeReg, Reg.gpr, Reg.width, Width.bits, hi]
  | high g =>
    have hwrite : (s.writeReg (.high g) v).gpr g =
        (s.gpr g &&& (0xffffffffffff00ff : UInt64)) ||| (Width.w8.truncate v <<< (8 : UInt64)) :=
      gpr_setGpr_self s g _
    -- the mask keeps all but the second byte, and the value is shifted into this byte
    have hkept : ∀ i < 64,
        (0xffffffffffff00ff : UInt64).toBitVec.getLsbD i = !decide (8 ≤ i ∧ i < 16) := by decide
    have hbyte : (Width.w8.truncate v <<< (8 : UInt64)).toBitVec.getLsbD i =
        (decide (8 ≤ i ∧ i < 16) && v.toBitVec.getLsbD (i - 8)) := by
      have hshifted : (Width.w8.truncate v <<< (8 : UInt64)).toBitVec.getLsbD i =
          (decide (i < 64) && !decide (i < 8) && (Width.w8.truncate v).toBitVec.getLsbD (i - 8)) :=
        BitVec.getLsbD_shiftLeft _ 8
      have hrange : (decide (i < 64) && !decide (i < 8) && decide (i - 8 < Width.w8.bits)) =
          decide (8 ≤ i ∧ i < 16) := by
        have hbits : Width.w8.bits = 8 := rfl
        rw [Bool.eq_iff_iff]
        simp only [Bool.and_eq_true, Bool.not_eq_true', decide_eq_true_eq, decide_eq_false_iff_not]
        omega
      rw [hshifted, Width.w8.getLsbD_truncate v (by omega), ← Bool.and_assoc, hrange]
    rw [Reg.gpr, hwrite, UInt64.toBitVec_or, BitVec.getLsbD_or, UInt64.toBitVec_and,
      BitVec.getLsbD_and, hkept i hi, hbyte]
    simp only [Reg.shift, Reg.width, Width.bits]
    by_cases h : 8 ≤ i ∧ i < 16 <;> simp [h]

/-- What was written through a view is seen. -/
theorem readReg_writeReg_self : (s.writeReg r v).readReg r = r.width.truncate v := by
  refine UInt64.eq_of_getLsbD_eq fun i hi => ?_
  rw [getLsbD_readReg, Width.getLsbD_truncate _ _ hi]
  by_cases hlow : i < r.width.bits
  · -- every bit that is seen is in the register
    have hinside : r.shift + i < 64 := by
      cases r with
      | low g w => rwa [Reg.shift, Nat.zero_add]
      | high g =>
        have hbyte : i < 8 := hlow
        show 8 + i < 64
        omega
    rw [getLsbD_writeReg _ _ _ hinside, if_pos ⟨by omega, by omega⟩, Nat.add_sub_cancel_left]
  · simp [hlow]

end Cpu

/-! ### Counts of shifts -/

/-- The count that a shift is given: an immediate value, or the low byte of the count register. -/
def ShiftCount.given (s : Cpu) : ShiftCount → Nat
  | imm n => n.toNat
  | cl => (s.gpr .rcx).toNat % 256

/-- A shift takes its count from where it is given. -/
theorem Exec.rawCount_eq_given (s : Cpu) (count : ShiftCount) : rawCount s count = count.given s := by
  cases count with
  | imm n => rfl
  | cl =>
    rw [rawCount, Cpu.toNat_readReg, Reg.shift, Nat.pow_zero, Nat.div_one]
    rfl

end Amd64
