import Amd64.Semantics.Exec
import Mathlib.Logic.Function.Basic

namespace Amd64

/-!
# Vector registers of a machine

A vector register stands for 512 bits, whichever way it stores them. What becomes of a register is said by the bits
that it stands for afterwards.

* `Machine.vectors`    — what the registers stand for;
* `Machine.withVector` — a machine with other bits in one of its registers, and everything else as before;
* `Machine.xmm`, `Machine.upperXmm` — the low bits of a register;
* `Machine.setXmm`, `Machine.setYmm`, `Machine.store` — a machine with other low bits, and with the same bits stored
  in another way;
* `Machine.modifyVec_setXmm` — a write to the low 128 bits of a register leaves such a machine.
-/

namespace Machine

variable {σ : Type} (m : Machine σ)

/-- What the vector registers stand for. -/
def vectors (v : Fin 16) : BitVec 512 :=
  (m.cpu.vec v).contents

/-- The vector register `v` stands for the bits `x`, all of which are stored. -/
def withVector : Fin 16 → BitVec 512 → Machine σ
  | ⟨v, hv⟩, x => ⟨{ m.cpu with vectors := m.cpu.vectors.set v ⟨x, none⟩ hv }, m.bus⟩

/-- The low 128 bits of a vector register. -/
def xmm (v : Fin 16) : BitVec 128 :=
  (m.vectors v).extractLsb' 0 128

/-- The 128 bits above them. -/
def upperXmm (v : Fin 16) : BitVec 128 :=
  (m.vectors v).extractLsb' 128 128

/-- The low 128 bits of a vector register are `x`, and the others are as before. -/
def setXmm (v : Fin 16) (x : BitVec 128) : Machine σ :=
  m.withVector v ((m.vectors v).extractLsb' 128 384 ++ x)

/-- The low 256 bits of a vector register are `x`, and the others are zero. -/
def setYmm (v : Fin 16) (x : BitVec 256) : Machine σ :=
  m.withVector v (x.setWidth 512)

/-- The number that is kept beside a vector register is stored. -/
def store (v : Fin 16) : Machine σ :=
  m.withVector v (m.vectors v)

variable (v : Fin 16)

/-- Only the one register stands for other bits. -/
theorem vectors_withVector (x : BitVec 512) : (m.withVector v x).vectors = Function.update m.vectors v x := by
  funext u
  show ((m.cpu.setVec v ⟨x, none⟩).vec u).contents = _
  by_cases h : v = u
  · subst h
    rw [Cpu.vec_setVec_self, Function.update_self]
    rfl
  · rw [Cpu.vec_setVec_of_ne _ _ h, Function.update_of_ne (Ne.symm h)]
    rfl

/-- The bits that are written last count. -/
theorem withVector_withVector (x y : BitVec 512) : (m.withVector v x).withVector v y = m.withVector v y := by
  obtain ⟨v, hv⟩ := v
  simp [withVector]

/-- Different registers may be written in any order. -/
theorem withVector_comm {u v : Fin 16} (h : u ≠ v) (x y : BitVec 512) :
    (m.withVector u x).withVector v y = (m.withVector v y).withVector u x := by
  have hindex : u.val ≠ v.val := fun e => h (Fin.ext e)
  exact congrArg (fun vectors => (⟨{ m.cpu with vectors }, m.bus⟩ : Machine σ)) (Vector.set_comm _ _ hindex)

/-- How a register is stored cannot be seen. -/
theorem vectors_store : (m.store v).vectors = m.vectors := by
  rw [store, vectors_withVector, Function.update_eq_self]

/-- Registers may be stored in any order. -/
theorem store_store (u : Fin 16) : (m.store u).store v = (m.store v).store u := by
  by_cases h : u = v
  · rw [h]
  · have hsame : ∀ u v, (m.store u).store v = (m.withVector u (m.vectors u)).withVector v (m.vectors v) :=
      fun u v => congrArg ((m.store u).withVector v) (congrFun (m.vectors_store u) v)
    rw [hsame, hsame, m.withVector_comm h]

/-- A write of low bits does not tell how the register was stored. -/
theorem setXmm_store (x : BitVec 128) : (m.store v).setXmm v x = m.setXmm v x := by
  rw [setXmm, vectors_store, store, withVector_withVector, ← setXmm]

/-- The register is replaced by one that stands for the same high bits. -/
theorem modifyVec_setXmm (x : BitVec 128) :
    (⟨m.cpu.modifyVec v (·.setXmm x), m.bus⟩ : Machine σ) = m.setXmm v x := by
  have hcontents := VectorReg.contents_setXmm (m.cpu.vec v) x
  exact congrArg (m.withVector v) hcontents

end Machine

end Amd64
