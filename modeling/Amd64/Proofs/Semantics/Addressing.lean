import Amd64.Proofs.Arithmetic.Words
import Amd64.Proofs.Decoder.AddressCode
import Amd64.Proofs.Machine.Binding
import Amd64.Proofs.Machine.Views
import Amd64.Proofs.Semantics.Outcome
import Amd64.Semantics.Instruction
import Mathlib.Tactic.NormNum
import Mathlib.Tactic.Ring

namespace Amd64

/-!
# Effective addresses

* `AddressCode.offset`, `AddressCode.effective` — the address that bytes encode, as a number;
* `Address.EncodedBy.toNat_offset`, `Address.EncodedBy.toNat_effective` — the machine adds up this number;
* `Instruction.addresses_of_decode` — from the bytes of an instruction to the address of its operand.
-/

/-- A register is found under its number. -/
theorem Cpu.gpr_eq_getElem (s : Cpu) {g : Gpr} {n : Fin 16} (h : g.index = n) : s.gpr g = s.gprs[n] := by
  subst h
  rfl

namespace AddressCode

variable (c : AddressCode) (next : Nat) (s : Cpu)

/-- What an address starts from: a register, or the address behind the instruction, or zero. -/
def base : Nat :=
  if c.noBase then if c.hasSib then 0 else next else s.gprs[c.baseCode].toNat

/-- The scaled index. -/
def index : Nat :=
  if c.hasSib ∧ c.indexCode.val ≠ 4 then s.gprs[c.indexCode].toNat * 2 ^ (c.sib / 64) else 0

/-- The address without its segment. -/
def offset : Int :=
  (c.base next s + c.index s + c.displacement) % 2 ^ (if c.narrow then 32 else 64)

/-- The address of an access. -/
def effective : Int :=
  (c.offset next s + (s.overrideBase c.segment).toNat) % 2 ^ 64

end AddressCode

namespace Address.EncodedBy

variable {a : Address} {c : AddressCode} (h : a.EncodedBy c) (s : Cpu)
include h

/-- The word that an address starts from is the encoded base, up to whole turns of the address space. -/
theorem baseWord_modEq {next : UInt64} {n : Nat} (hnext : (next.toNat : Int) ≡ n [ZMOD 2 ^ 64]) :
    ((a.baseWord next s).toNat : Int) ≡ c.base n s [ZMOD 2 ^ 64] := by
  rw [baseWord, AddressCode.base]
  by_cases hnone : c.noBase = true
  · rw [h.bare hnone, if_pos hnone]
    by_cases hsib : c.hasSib = true
    · simp only [if_pos hsib]
      rfl
    · simpa only [if_neg hsib] using hnext
  · obtain ⟨g, hg, hbase⟩ := h.base (Bool.eq_false_iff.mpr hnone)
    simp only [hbase, if_neg hnone, s.gpr_eq_getElem hg]
    rfl

/-- The word of the scaled index is the encoded index, up to whole turns. -/
theorem indexWord_modEq : ((a.indexWord s).toNat : Int) ≡ c.index s [ZMOD 2 ^ 64] := by
  have hcode := h.index
  rw [indexWord, AddressCode.index]
  by_cases hindex : c.hasSib = true ∧ c.indexCode.val ≠ 4
  · rw [if_pos hindex] at hcode ⊢
    obtain ⟨g, hg, hnumber⟩ := Option.map_eq_some_iff.mp hcode
    simp only [hg, s.gpr_eq_getElem hnumber]
    -- each of the four factors is a word
    have hfactor : (UInt64.ofNat a.scale.factor).toNat = 2 ^ (c.sib / 64) := by
      rw [← h.scale hindex.1]
      cases a.scale <;> rfl
    refine (toNat_mul_modEq _ _).trans ?_
    rw [hfactor]
    push_cast
    rfl
  · rw [if_neg hindex] at hcode ⊢
    rw [Option.map_eq_none_iff.mp hcode]
    rfl

/-- The machine adds up words, which is adding up numbers and cutting the sum. -/
theorem toNat_offset {next : UInt64} {n : Nat} (hnext : (next.toNat : Int) ≡ n [ZMOD 2 ^ 64]) :
    (((a.bind next).offset s).toNat : Int) = c.offset n s := by
  have hsum : ((a.displacement.toInt64.toUInt64 + a.baseWord next s + a.indexWord s).toNat : Int) ≡
      c.base n s + c.index s + c.displacement [ZMOD 2 ^ 64] := by
    have hd := toNat_toUInt64_modEq a.displacement
    rw [h.displacement] at hd
    have hword := (hd.add (h.baseWord_modEq s hnext)).add (h.indexWord_modEq s)
    refine (toNat_add_modEq _ _).trans (((toNat_add_modEq _ _).add_right _).trans ?_)
    -- the machine starts from the displacement
    convert hword using 1
    ring
  rw [offset_bind, AddressCode.offset, h.narrow]
  generalize a.displacement.toInt64.toUInt64 + a.baseWord next s + a.indexWord s = sum at hsum ⊢
  cases c.narrow with
  | false => exact toNat_eq_emod hsum
  | true =>
    have hcut : ((Width.w32.truncate sum).toNat : Int) = sum.toNat % 2 ^ 32 := by
      rw [Width.toNat_truncate, Width.toNat]
      push_cast
      rfl
    -- to cut the sum of words is to cut the sum
    exact hcut.trans (hsum.of_dvd (by decide))

/-- The base of the segment is added behind the cut to 32 bits. -/
theorem toNat_effective {next : UInt64} {n : Nat} (hnext : (next.toNat : Int) ≡ n [ZMOD 2 ^ 64]) :
    (((a.bind next).effective s).toNat : Int) = c.effective n s := by
  rw [BoundAddress.effective_eq_offset_add, Address.segment_bind, h.segment, AddressCode.effective,
    ← h.toNat_offset s hnext]
  exact toNat_eq_emod (toNat_add_modEq _ _)

end Address.EncodedBy

/-! ### Instructions -/

namespace Instruction

variable {rip : UInt64} {bs : List UInt8} {i : Instruction}

/-- The next instruction begins behind the bytes of this one, up to whole turns. -/
theorem next_modEq (i : Instruction) :
    (i.next.toNat : Int) ≡ ((i.rip.toNat + i.size : Nat) : Int) [ZMOD 2 ^ 64] := by
  have hsize : ((UInt64.ofNat i.size).toNat : Int) ≡ i.size [ZMOD 2 ^ 64] := by
    rw [UInt64.toNat_ofNat']
    push_cast
    exact Int.mod_modEq _ _
  push_cast
  exact (toNat_add_modEq _ _).trans (hsize.add_left _)

section
variable {σ : Type} [Bus σ]

/-- The address is computed and written to the register; nothing else changes. -/
theorem execute_lea {dst : Reg} {a : Address} (h : i.operation = .lea dst a) (m : Machine σ) :
    outcome (i.execute i.binding) m =
      (.ok (.next i.next), ⟨m.cpu.writeReg dst ((a.bind i.next).offset m.cpu), m.bus⟩) := by
  have hsrc : i.binding.get 1 = .mem (a.bind i.next) := get_binding (o := .mem a) (by rw [h]; rfl)
  simp only [execute, h, hsrc]
  rfl

/-- **Addresses.** The effective address of an operand in memory is the one that the bytes of the instruction
    encode, on every machine. The instruction that computes an address leaves it out of its segment and cut
    to the width of its destination. -/
theorem addresses_of_decode (h : decode rip bs = .ok i) :
    (∀ b, .mem b ∈ i.binding.locations → (AddressCode.ofBytes bs).mode ≠ 3 ∧
      ∀ s : Cpu, ((b.effective s).toNat : Int) =
        (AddressCode.ofBytes bs).effective (rip.toNat + i.size) s) ∧
    ∀ dst a, i.operation = .lea dst a → ∀ m : Machine σ, ∃ t,
      outcome (i.execute i.binding) m = (.ok (.next i.next), ⟨t, m.bus⟩) ∧
      ((t.readReg dst).toNat : Int) =
        (AddressCode.ofBytes bs).offset (rip.toNat + i.size) m.cpu % 2 ^ dst.width.bits := by
  have hencoded := encodedBy_of_decode h
  have hnext := i.next_modEq
  rw [rip_of_decode h] at hnext
  refine ⟨fun b hb => ?_, fun dst a hlea m => ⟨_, execute_lea hlea m, ?_⟩⟩
  · obtain ⟨a, ha, rfl⟩ := mem_of_mem_locations hb
    have hcode : a.EncodedBy (AddressCode.ofBytes bs) := hencoded _ ha
    exact ⟨hcode.mode_ne, fun s => hcode.toNat_effective s hnext⟩
  · have hcode : a.EncodedBy (AddressCode.ofBytes bs) :=
      hencoded (.mem a) (by simp [hlea, Operation.operands])
    rw [← hcode.toNat_offset m.cpu hnext, Cpu.readReg_writeReg_self, Width.toNat_truncate, Width.toNat,
      Width.modulus_eq_two_pow]
    push_cast
    rfl

end

/-- `mov dword fs:[rip - 10], 1`: the address is counted from the end of the instruction, which is behind its
    immediate value. `mov rax, [r13 + r12 * 8 + 16]`: base and index are extended, so the field 4 is an index. -/
theorem addresses_of_decode_ripAndIndex :
    (∃ i b, decode 0x1000 [0x64, 0xc7, 0x05, 0xf6, 0xff, 0xff, 0xff, 0x01, 0x00, 0x00, 0x00] = .ok i ∧
      i.binding.locations = [.mem b, .imm 1] ∧
      ∀ s : Cpu, ((b.effective s).toNat : Int) = (0x1001 + s.fsBase.toNat) % 2 ^ 64) ∧
    ∃ i b, decode 0x1000 [0x4b, 0x8b, 0x44, 0xe5, 0x10] = .ok i ∧
      i.binding.locations = [.reg (.low .rax .w64), .mem b] ∧
      ∀ s : Cpu, ((b.effective s).toNat : Int) =
        ((s.gpr .r13).toNat + (s.gpr .r12).toNat * 8 + 16) % 2 ^ 64 := by
  have hrip : decode 0x1000 [0x64, 0xc7, 0x05, 0xf6, 0xff, 0xff, 0xff, 0x01, 0x00, 0x00, 0x00] =
      .ok ⟨0x1000, .ofBytes [0x64, 0xc7, 0x05, 0xf6, 0xff, 0xff, 0xff, 0x01, 0x00, 0x00, 0x00],
        .mov (.mem ⟨.next, none, .one, -10, some .fs, false⟩) (.imm 1) .w32⟩ := rfl
  have hripCode : AddressCode.ofBytes [0x64, 0xc7, 0x05, 0xf6, 0xff, 0xff, 0xff, 0x01, 0x00, 0x00, 0x00] =
      ⟨false, some .fs, false, false, 0x05, [0xf6, 0xff, 0xff, 0xff, 0x01, 0x00, 0x00, 0x00]⟩ := rfl
  have hback : AddressCode.displacement ⟨false, some .fs, false, false, 0x05,
      [0xf6, 0xff, 0xff, 0xff, 0x01, 0x00, 0x00, 0x00]⟩ = -10 := by decide
  have hindexed : decode 0x1000 [0x4b, 0x8b, 0x44, 0xe5, 0x10] =
      .ok ⟨0x1000, .ofBytes [0x4b, 0x8b, 0x44, 0xe5, 0x10],
        .mov (.reg (.low .rax .w64)) (.mem ⟨.register .r13, some .r12, .eight, 16, none, false⟩) .w64⟩ := rfl
  have hindexedCode : AddressCode.ofBytes [0x4b, 0x8b, 0x44, 0xe5, 0x10] =
      ⟨false, none, true, true, 0x44, [0xe5, 0x10]⟩ := rfl
  have hforth : AddressCode.displacement ⟨false, none, true, true, 0x44, [0xe5, 0x10]⟩ = 16 := by decide
  refine ⟨⟨_, _, hrip, rfl, fun s => ?_⟩, _, _, hindexed, rfl, fun s => ?_⟩
  · rw [((@addresses_of_decode _ _ _ Memory _ hrip).1 _ (.head _)).2 s, hripCode, AddressCode.effective,
      AddressCode.offset, hback]
    rfl
  · rw [((@addresses_of_decode _ _ _ Memory _ hindexed).1 _ (.tail _ (.head _))).2 s, hindexedCode,
      AddressCode.effective, AddressCode.offset, hforth]
    -- the fields of the bytes are evaluated, the registers are not
    have hbase (n : Nat) : AddressCode.base ⟨false, none, true, true, 0x44, [0xe5, 0x10]⟩ n s =
        (s.gpr .r13).toNat := rfl
    have hindex : AddressCode.index ⟨false, none, true, true, 0x44, [0xe5, 0x10]⟩ s =
        (s.gpr .r12).toNat * 8 := rfl
    have hsegment : ((s.overrideBase none).toNat : Int) = 0 := rfl
    simp only [hbase, hindex, hsegment, Bool.false_eq_true, if_false, Int.add_zero, Int.emod_emod]
    push_cast
    rfl

end Instruction

end Amd64
