import Amd64.Flags
import Amd64.Instruction.Operand
import Amd64.Vector.Register

namespace Amd64

/-!
# Registers and flags of a processor

* `Cpu`                     — all registers;
* `Cpu.gpr`, `Cpu.setGpr`   — whole general-purpose registers;
* `Cpu.readReg`, `Cpu.writeReg` — views of them: a write to 32 bits zeroes the upper half, a write to fewer
  bits keeps the rest;
* `Cpu.vec`, `Cpu.setVec`   — vector registers.
-/

/-- The registers of a processor. -/
structure Cpu where
  gprs : Vector UInt64 16
  rip : UInt64
  flags : Flags
  fsBase : UInt64
  gsBase : UInt64
  vectors : Vector VectorReg 16
deriving DecidableEq

namespace Cpu

/-- A processor whose registers are zero. -/
def initial : Cpu where
  gprs := Vector.replicate 16 0
  rip := 0
  flags := .initial
  fsBase := 0
  gsBase := 0
  vectors := Vector.replicate 16 .zero

instance : Inhabited Cpu := ⟨initial⟩

/-- The value of a general-purpose register. -/
def gpr (s : Cpu) (g : Gpr) : UInt64 :=
  s.gprs[g.index]

/-- Replaces a general-purpose register. -/
def setGpr (s : Cpu) (g : Gpr) (v : UInt64) : Cpu :=
  { s with gprs := s.gprs.set g.index v }

@[simp] theorem gpr_setGpr_self (s : Cpu) (g : Gpr) (v : UInt64) : (s.setGpr g v).gpr g = v := by
  simp [gpr, setGpr]

theorem gpr_setGpr_of_ne (s : Cpu) {g h : Gpr} (v : UInt64) (ne : g ≠ h) :
    (s.setGpr g v).gpr h = s.gpr h := by
  have hi : g.index.val ≠ h.index.val := fun e => ne (Gpr.index_inj (Fin.ext e))
  simp [gpr, setGpr, Vector.getElem_set_ne _ _ hi]

theorem setGpr_setGpr_gpr (s : Cpu) (g : Gpr) (v : UInt64) :
    (s.setGpr g v).setGpr g (s.gpr g) = s := by
  simp [gpr, setGpr]

/-- The bits of a view, zero-extended. -/
def readReg (s : Cpu) : Reg → UInt64
  | .low g w => w.truncate (s.gpr g)
  | .high g => (s.gpr g >>> 8) &&& 0xff

/-- Replaces the bits of a view by the low bits of `v`. -/
def writeReg (s : Cpu) (r : Reg) (v : UInt64) : Cpu :=
  match r with
  | .low g .w64 => s.setGpr g v
  | .low g .w32 => s.setGpr g (Width.w32.truncate v)
  | .low g w => s.setGpr g ((s.gpr g &&& ~~~w.mask) ||| w.truncate v)
  | .high g =>
    let kept := s.gpr g &&& 0xffffffffffff00ff
    let byte := Width.w8.truncate v
    s.setGpr g (kept ||| (byte <<< 8))

/-- Replaces the flags. Bit 1 stays set. -/
def setFlags (s : Cpu) (f : Flags) : Cpu :=
  { s with flags := f.withReserved }

/-- Replaces the instruction pointer. -/
def setRip (s : Cpu) (rip : UInt64) : Cpu :=
  { s with rip := rip }

/-- The base of a segment. -/
def segmentBase (s : Cpu) : SegmentRegister → UInt64
  | .fs => s.fsBase
  | .gs => s.gsBase

/-- A vector register. -/
def vec (s : Cpu) (i : Fin 16) : VectorReg :=
  s.vectors[i]

/-- Replaces a vector register. -/
def setVec (s : Cpu) (i : Fin 16) (r : VectorReg) : Cpu :=
  { s with vectors := s.vectors.set i r }

@[simp] theorem vec_setVec_self (s : Cpu) (i : Fin 16) (r : VectorReg) :
    (s.setVec i r).vec i = r := by
  simp [vec, setVec]

theorem vec_setVec_of_ne (s : Cpu) {i j : Fin 16} (r : VectorReg) (ne : i ≠ j) :
    (s.setVec i r).vec j = s.vec j := by
  have hi : i.val ≠ j.val := fun e => ne (Fin.ext e)
  simp [vec, setVec, Vector.getElem_set_ne _ _ hi]

/-- Changes a vector register. -/
def modifyVec (s : Cpu) (i : Fin 16) (f : VectorReg → VectorReg) : Cpu :=
  s.setVec i (f (s.vec i))

/-- Stores all floating-point numbers that are kept beside vector registers. -/
def materialize (s : Cpu) : Cpu :=
  { s with vectors := s.vectors.map VectorReg.materialize }

/-- Zeroes the upper parts of all vector registers. -/
def zeroUpper (s : Cpu) : Cpu :=
  { s with vectors := s.vectors.map VectorReg.zeroUpper }

/-- Whether a condition is true of the flags. -/
def holds (s : Cpu) (c : Condition) : Bool :=
  c.holds s.flags

end Cpu

end Amd64
