import Amd64.Proofs.LittleEndian
import Amd64.Proofs.Machine.Views
import Mathlib.Logic.Function.Basic

namespace Amd64

/-!
# Views as bytes of registers

A general-purpose register is eight bytes, and each of its views shows some of them: the low one, two, four or
eight, or the second one. Views of one register that show common bytes are therefore changed together.

* `RegisterBytes`, `RegisterFile`  — the bytes of a register and of all registers;
* `RegisterFile.write`, `RegisterFile.read` — what a write does to the bytes, and the number that a view shows;
* `Cpu.registerFile_writeReg`      — a write does this to the registers of a processor;
* `Cpu.toNat_readReg_bytes`        — a read shows this number;
* `Cpu.views_alias`                — so views of a register after any writes are views of its bytes.
-/

/-! ### Bytes -/

/-- The bytes of a register, least significant first. -/
abbrev RegisterBytes := Vector UInt8 8

namespace Reg

/-- The first byte of the register that a view shows. -/
def firstByte : Reg → Nat
  | low _ _ => 0
  | high _ => 1

/-- A view shows the byte at a position. -/
def Shows (r : Reg) (i : Nat) : Prop :=
  r.firstByte ≤ i ∧ i < r.firstByte + r.width.bytes

instance (r : Reg) (i : Nat) : Decidable (r.Shows i) := inferInstanceAs (Decidable (_ ∧ _))

/-- A register is seen from its first byte on. -/
theorem shift_eq (r : Reg) : r.shift = 8 * r.firstByte := by
  cases r <;> rfl

/-- No register is seen behind its last byte. -/
theorem firstByte_add_bytes_le (r : Reg) : r.firstByte + r.width.bytes ≤ 8 := by
  cases r with
  | low g w => cases w <;> simp [firstByte, width, Width.bytes]
  | high g => simp [firstByte, width, Width.bytes]

end Reg

namespace RegisterBytes

/-- The bytes of a number. -/
def ofWord (v : UInt64) : RegisterBytes :=
  ⟨(LittleEndian.bytes 8 v.toNat).toArray, by simp⟩

/-- The bytes of a register after a number was written through a view. The bytes that the view shows become the low
    bytes of the number. Of the others, a view of four bytes clears those above it, and any other view keeps all. -/
def replace (bytes : RegisterBytes) (r : Reg) (v : UInt64) : RegisterBytes :=
  Vector.ofFn fun i =>
    if r.Shows i then (ofWord v)[i - r.firstByte]
    else if r.width = .w32 then 0
    else bytes[i]

/-- The bytes that a view shows. -/
def shown (bytes : RegisterBytes) (r : Reg) : List UInt8 :=
  (bytes.toList.drop r.firstByte).take r.width.bytes

/-- The bits of a byte are bits of the number. -/
theorem getLsbD_ofWord (v : UInt64) {i j : Nat} (hi : i < 8) (hj : j < 8) :
    (ofWord v)[i].toBitVec.getLsbD j = v.toBitVec.getLsbD (8 * i + j) := by
  have hbyte : (ofWord v)[i] = UInt8.ofNat (v.toNat / 256 ^ i) :=
    LittleEndian.getElem_bytes (by rwa [LittleEndian.length_bytes])
  have hpow : (256 : Nat) ^ i = 2 ^ (8 * i) := by rw [Nat.pow_mul]
  rw [hbyte, ← BitVec.testBit_toNat, ← BitVec.testBit_toNat, hpow]
  show (UInt8.ofNat (v.toNat / 2 ^ (8 * i))).toNat.testBit j = v.toNat.testBit (8 * i + j)
  rw [UInt8.toNat_ofNat', Nat.testBit_mod_two_pow, Nat.testBit_div_two_pow, Nat.add_comm j]
  simp [hj]

end RegisterBytes

/-- The bytes of all general-purpose registers. -/
abbrev RegisterFile := Gpr → RegisterBytes

namespace RegisterFile

/-- The registers after a number was written through a view. Only the register of the view changes. -/
def write (f : RegisterFile) (w : Reg × UInt64) : RegisterFile :=
  Function.update f w.1.gpr ((f w.1.gpr).replace w.1 w.2)

/-- The number that a view shows, with zeros above its bytes. -/
def read (f : RegisterFile) (r : Reg) : Nat :=
  LittleEndian.value ((f r.gpr).shown r)

/-- Each register depends on the writes to it only. -/
theorem foldl_write (f : RegisterFile) (writes : List (Reg × UInt64)) (g : Gpr) :
    writes.foldl write f g =
      (writes.filter fun w => w.1.gpr = g).foldl (fun bytes w => bytes.replace w.1 w.2) (f g) := by
  induction writes generalizing f with
  | nil => rfl
  | cons w writes ih =>
    rw [List.foldl_cons, ih, List.filter_cons]
    by_cases hg : w.1.gpr = g
    · subst hg
      simp [write]
    · simp [write, hg, Function.update_of_ne (Ne.symm hg)]

end RegisterFile

namespace Cpu

/-- The bytes of the general-purpose registers. -/
def registerFile (s : Cpu) : RegisterFile :=
  fun g => .ofWord (s.gpr g)

/-- The processor after numbers were written through views, one after the other. -/
def afterWrites (s : Cpu) (writes : List (Reg × UInt64)) : Cpu :=
  writes.foldl (fun s w => s.writeReg w.1 w.2) s

variable (s : Cpu)

/-- **One write.** -/
theorem registerFile_writeReg (r : Reg) (v : UInt64) :
    (s.writeReg r v).registerFile = s.registerFile.write (r, v) := by
  funext g
  by_cases hg : r.gpr = g
  · subst hg
    -- the bits of each byte are bits of the register, of which it is known what a write does to them
    rw [RegisterFile.write, Function.update_self]
    refine Vector.ext fun i hi => UInt8.toBitVec_inj.mp (BitVec.eq_of_getLsbD_eq fun j hj => ?_)
    have hshift := r.shift_eq
    have hbits := r.width.bits_eq
    have hleft := RegisterBytes.getLsbD_ofWord ((s.writeReg r v).gpr r.gpr) hi hj
    have hkept := RegisterBytes.getLsbD_ofWord (s.gpr r.gpr) hi hj
    rw [registerFile, hleft, getLsbD_writeReg s r v (by omega), RegisterBytes.replace, Vector.getElem_ofFn]
    by_cases hshows : r.Shows i
    · obtain ⟨hlow, hhigh⟩ := hshows
      have hbyte := RegisterBytes.getLsbD_ofWord v (i := i - r.firstByte) (by omega) hj
      have hposition : 8 * (i - r.firstByte) + j = 8 * i + j - r.shift := by omega
      rw [if_pos ⟨by omega, by omega⟩, if_pos ⟨hlow, hhigh⟩]
      rw [hposition] at hbyte
      exact hbyte.symm
    · have hout : ¬ (r.shift ≤ 8 * i + j ∧ 8 * i + j < r.shift + r.width.bits) := by
        rintro ⟨hlow, hhigh⟩
        exact hshows ⟨by omega, by omega⟩
      rw [if_neg hout, if_neg hshows]
      by_cases hw : r.width = .w32
      · simp [hw]
      · simpa [hw, registerFile] using hkept.symm
  · rw [RegisterFile.write, Function.update_of_ne (Ne.symm hg), registerFile, gpr_writeReg_of_ne s hg]
    rfl

/-- **Any writes.** -/
theorem registerFile_afterWrites (writes : List (Reg × UInt64)) :
    (s.afterWrites writes).registerFile = writes.foldl RegisterFile.write s.registerFile := by
  induction writes generalizing s with
  | nil => rfl
  | cons w writes ih =>
    show ((s.writeReg w.1 w.2).afterWrites writes).registerFile = _
    rw [ih, registerFile_writeReg]
    rfl

/-- **One read.** -/
theorem toNat_readReg_bytes (r : Reg) : (s.readReg r).toNat = s.registerFile.read r := by
  obtain ⟨rest, hrest⟩ := Nat.exists_eq_add_of_le r.firstByte_add_bytes_le
  have hshown := LittleEndian.value_take_drop r.firstByte r.width.bytes rest (s.gpr r.gpr).toNat
  rw [← hrest] at hshown
  have hshift : 2 ^ r.shift = 256 ^ r.firstByte := by rw [r.shift_eq, Nat.pow_mul]
  have hbits : 2 ^ r.width.bits = 256 ^ r.width.bytes := by rw [r.width.bits_eq, Nat.pow_mul]
  rw [toNat_readReg, hshift, hbits, ← hshown]
  rfl

/-- Writes to other registers do not matter for a view. -/
theorem readReg_afterWrites_filter (writes : List (Reg × UInt64)) (q : Reg) :
    (s.afterWrites writes).readReg q =
      (s.afterWrites (writes.filter fun w => w.1.gpr = q.gpr)).readReg q := by
  refine UInt64.toNat_inj.mp ?_
  rw [toNat_readReg_bytes, toNat_readReg_bytes, registerFile_afterWrites, registerFile_afterWrites,
    RegisterFile.read, RegisterFile.read, RegisterFile.foldl_write, RegisterFile.foldl_write, List.filter_filter]
  simp only [Bool.and_self]

/-- **Views alias.** A view of a register after any writes through any views shows, with zeros above, its bytes of the
    register file after the same writes; and only writes to this register matter. -/
theorem views_alias (s : Cpu) (writes : List (Reg × UInt64)) (q : Reg) :
    ((s.afterWrites writes).readReg q).toNat = (writes.foldl RegisterFile.write s.registerFile).read q ∧
      (s.afterWrites writes).readReg q =
        (s.afterWrites (writes.filter fun w => w.1.gpr = q.gpr)).readReg q := by
  refine ⟨?_, s.readReg_afterWrites_filter writes q⟩
  rw [toNat_readReg_bytes, registerFile_afterWrites]

/-- The second byte of a register is written after all eight, and then the low byte of another one. -/
example :
    (initial.afterWrites [(.low .rax .w64, 0x1122334455667788), (.high .rax, 0x1ee),
      (.low .rcx .w8, 0xffff)]).readReg (.low .rax .w64) = 0x112233445566ee88 := by decide

end Cpu

end Amd64
