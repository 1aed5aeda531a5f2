namespace Amd64

/-!
# Vector registers

A vector register holds 512 bits, of which instructions see the low 128 or 256. A floating-point result is
not put into these bits at once but kept beside them until another view of the register is asked for.

* `VectorReg`              — the stored bits and the number kept beside them;
* `VectorReg.contents`     — the bits that the register stands for;
* `VectorReg.materialize`  — puts the number into the stored bits;
* `VectorReg.xmm`, `VectorReg.single`, … — views, each with the register as the view leaves it.
-/

/-- A floating-point number by its bits. -/
inductive Scalar where
  | single (bits : UInt32)
  | double (bits : UInt64)
deriving DecidableEq, Inhabited

/-- Eight 64-bit words, least significant first. -/
abbrev Words := Vector UInt64 8

namespace Words

/-- The words of 512 bits. -/
def ofBits (v : BitVec 512) : Words :=
  Vector.ofFn fun i => UInt64.ofBitVec (v.extractLsb' (64 * i.val) 64)

/-- The 512 bits of eight words. -/
def toBits (ws : Words) : BitVec 512 :=
  ws[7].toBitVec ++ ws[6].toBitVec ++ ws[5].toBitVec ++ ws[4].toBitVec ++ ws[3].toBitVec
    ++ ws[2].toBitVec ++ ws[1].toBitVec ++ ws[0].toBitVec

/-- Bits survive being cut into words. -/
theorem toBits_ofBits (v : BitVec 512) : (ofBits v).toBits = v := by
  have join {s n t : Nat} (h : s = t + 64) :
      v.extractLsb' s n ++ v.extractLsb' t 64 = v.extractLsb' t (n + 64) :=
    BitVec.extractLsb'_append_extractLsb'_eq_extractLsb' h
  simp only [toBits, ofBits, Vector.getElem_ofFn]
  rw [join (by decide), join (by decide), join (by decide), join (by decide), join (by decide),
    join (by decide), join (by decide)]
  exact BitVec.extractLsb'_eq_self

/-- Words survive being put together. -/
theorem ofBits_toBits (ws : Words) : ofBits ws.toBits = ws := by
  apply Vector.ext
  intro i hi
  simp only [ofBits, toBits, Vector.getElem_ofFn]
  apply UInt64.toBitVec_inj.1
  match i, hi with
  | 0, _ => exact BitVec.extractLsb'_append_eq_right
  | 1, _ | 2, _ | 3, _ | 4, _ | 5, _ | 6, _ =>
    repeat rw [BitVec.extractLsb'_append_eq_of_le (by decide)]
    exact BitVec.extractLsb'_append_eq_right
  | 7, _ =>
    repeat rw [BitVec.extractLsb'_append_eq_of_le (by decide)]
    exact BitVec.extractLsb'_eq_self

end Words

/-- A vector register. -/
structure VectorReg where
  stored : BitVec 512
  /-- A number that takes the place of the lowest 32 or 64 stored bits. -/
  cached : Option Scalar
deriving DecidableEq, Inhabited

namespace VectorReg

/-- A register of zeros. -/
def zero : VectorReg := ⟨0, none⟩

/-- A register that holds given bits. -/
def ofBits (v : BitVec 512) : VectorReg := ⟨v, none⟩

/-- Replaces the low 32 bits. -/
def withLow32 (v : BitVec 512) (x : UInt32) : BitVec 512 :=
  v.extractLsb' 32 480 ++ x.toBitVec

/-- Replaces the low 64 bits. -/
def withLow64 (v : BitVec 512) (x : UInt64) : BitVec 512 :=
  v.extractLsb' 64 448 ++ x.toBitVec

/-! ### Replaced numbers -/

theorem withLow32_withLow32 (v : BitVec 512) (x y : UInt32) :
    withLow32 (withLow32 v x) y = withLow32 v y := by
  have h : (withLow32 v x).extractLsb' 32 480 = v.extractLsb' 32 480 :=
    BitVec.extractLsb'_append_eq_left
  rw [withLow32, h, withLow32]

theorem withLow64_withLow64 (v : BitVec 512) (x y : UInt64) :
    withLow64 (withLow64 v x) y = withLow64 v y := by
  have h : (withLow64 v x).extractLsb' 64 448 = v.extractLsb' 64 448 :=
    BitVec.extractLsb'_append_eq_left
  rw [withLow64, h, withLow64]

theorem low_withLow32 (v : BitVec 512) (x : UInt32) :
    UInt32.ofBitVec ((withLow32 v x).extractLsb' 0 32) = x := by
  have h : (withLow32 v x).extractLsb' 0 32 = x.toBitVec := BitVec.extractLsb'_append_eq_right
  rw [h]

theorem low_withLow64 (v : BitVec 512) (x : UInt64) :
    UInt64.ofBitVec ((withLow64 v x).extractLsb' 0 64) = x := by
  have h : (withLow64 v x).extractLsb' 0 64 = x.toBitVec := BitVec.extractLsb'_append_eq_right
  rw [h]

theorem upper_withLow32 (v : BitVec 512) (x : UInt32) :
    (withLow32 v x).extractLsb' 128 384 = v.extractLsb' 128 384 := by
  ext i hi
  simp [withLow32]
  grind

theorem upper_withLow64 (v : BitVec 512) (x : UInt64) :
    (withLow64 v x).extractLsb' 128 384 = v.extractLsb' 128 384 := by
  ext i hi
  simp [withLow64]
  grind

/-! ### Contents and views -/

/-- The bits that the register stands for. -/
def contents (r : VectorReg) : BitVec 512 :=
  match r.cached with
  | none => r.stored
  | some (.single x) => withLow32 r.stored x
  | some (.double x) => withLow64 r.stored x

/-- Puts the number into the stored bits. -/
def materialize (r : VectorReg) : VectorReg :=
  ofBits r.contents

/-- Bits 0 to 127. -/
def xmm (r : VectorReg) : BitVec 128 × VectorReg :=
  (r.contents.extractLsb' 0 128, r.materialize)

/-- Bits 0 to 255. -/
def ymm (r : VectorReg) : BitVec 256 × VectorReg :=
  (r.contents.extractLsb' 0 256, r.materialize)

/-- All bits. -/
def zmm (r : VectorReg) : BitVec 512 × VectorReg :=
  (r.contents, r.materialize)

/-- The number in bits 0 to 31. A number of this precision is read without storing it. -/
def single (r : VectorReg) : UInt32 × VectorReg :=
  match r.cached with
  | some (.single x) => (x, r)
  | _ => (UInt32.ofBitVec (r.contents.extractLsb' 0 32), r.materialize)

/-- The number in bits 0 to 63. A number of this precision is read without storing it. -/
def double (r : VectorReg) : UInt64 × VectorReg :=
  match r.cached with
  | some (.double x) => (x, r)
  | _ => (UInt64.ofBitVec (r.contents.extractLsb' 0 64), r.materialize)

/-- Replaces bits 0 to 31. A number of the other precision is stored first. -/
def setSingle (r : VectorReg) (x : UInt32) : VectorReg :=
  match r.cached with
  | some (.double _) => ⟨r.contents, some (.single x)⟩
  | _ => ⟨r.stored, some (.single x)⟩

/-- Replaces bits 0 to 63. A number of the other precision is stored first. -/
def setDouble (r : VectorReg) (x : UInt64) : VectorReg :=
  match r.cached with
  | some (.single _) => ⟨r.contents, some (.double x)⟩
  | _ => ⟨r.stored, some (.double x)⟩

/-- Replaces bits 0 to 127 and keeps the others. -/
def setXmm (r : VectorReg) (v : BitVec 128) : VectorReg :=
  ofBits (r.stored.extractLsb' 128 384 ++ v)

/-- Replaces bits 0 to 127 and zeroes the others. -/
def setXmmVex (v : BitVec 128) : VectorReg :=
  ofBits (v.setWidth 512)

/-- Replaces bits 0 to 255 and zeroes the others. -/
def setYmm (v : BitVec 256) : VectorReg :=
  ofBits (v.setWidth 512)

/-- Zeroes bits 128 to 511. -/
def zeroUpper (r : VectorReg) : VectorReg :=
  ofBits ((r.contents.extractLsb' 0 128).setWidth 512)

/-- The contents as words. -/
def words (r : VectorReg) : Words :=
  Words.ofBits r.contents

/-- A register that holds given words. -/
def ofWords (ws : Words) : VectorReg :=
  ofBits ws.toBits

/-! ### How operations act on contents

A view tells what the contents are and leaves them; a write changes the bits that it names. -/

@[simp] theorem contents_ofBits (v : BitVec 512) : (ofBits v).contents = v := rfl

@[simp] theorem contents_materialize (r : VectorReg) : r.materialize.contents = r.contents := rfl

theorem single_fst (r : VectorReg) :
    r.single.1 = UInt32.ofBitVec (r.contents.extractLsb' 0 32) := by
  rcases r with ⟨v, _ | x | x⟩
  · rfl
  · exact (low_withLow32 v x).symm
  · rfl

theorem double_fst (r : VectorReg) :
    r.double.1 = UInt64.ofBitVec (r.contents.extractLsb' 0 64) := by
  rcases r with ⟨v, _ | x | x⟩
  · rfl
  · rfl
  · exact (low_withLow64 v x).symm

@[simp] theorem contents_single (r : VectorReg) : r.single.2.contents = r.contents := by
  rcases r with ⟨v, _ | x | x⟩ <;> rfl

@[simp] theorem contents_double (r : VectorReg) : r.double.2.contents = r.contents := by
  rcases r with ⟨v, _ | x | x⟩ <;> rfl

@[simp] theorem contents_setSingle (r : VectorReg) (x : UInt32) :
    (r.setSingle x).contents = withLow32 r.contents x := by
  rcases r with ⟨v, _ | y | y⟩
  · rfl
  · exact (withLow32_withLow32 v y x).symm
  · rfl

@[simp] theorem contents_setDouble (r : VectorReg) (x : UInt64) :
    (r.setDouble x).contents = withLow64 r.contents x := by
  rcases r with ⟨v, _ | y | y⟩
  · rfl
  · rfl
  · exact (withLow64_withLow64 v y x).symm

@[simp] theorem contents_setXmm (r : VectorReg) (v : BitVec 128) :
    (r.setXmm v).contents = r.contents.extractLsb' 128 384 ++ v := by
  rcases r with ⟨u, _ | y | y⟩
  · rfl
  · exact congrArg (· ++ v) (upper_withLow32 u y).symm
  · exact congrArg (· ++ v) (upper_withLow64 u y).symm

@[simp] theorem contents_setXmmVex (v : BitVec 128) : (setXmmVex v).contents = v.setWidth 512 := rfl

@[simp] theorem contents_setYmm (v : BitVec 256) : (setYmm v).contents = v.setWidth 512 := rfl

@[simp] theorem contents_ofWords_words (r : VectorReg) : (ofWords r.words).contents = r.contents :=
  Words.toBits_ofBits r.contents

end VectorReg

end Amd64
