import Amd64.Width

namespace Amd64

/-!
# General-purpose registers

* `Gpr` — one of the sixteen 64-bit registers;
* `Reg` — a register seen at a width: its low bits, or bits 8 to 15 of one of the first four.
-/

/-- A 64-bit general-purpose register. -/
inductive Gpr where
  | rax | rcx | rdx | rbx | rsp | rbp | rsi | rdi
  | r8 | r9 | r10 | r11 | r12 | r13 | r14 | r15
deriving DecidableEq, Inhabited

namespace Gpr

/-- All registers in encoding order. -/
def all : List Gpr :=
  [rax, rcx, rdx, rbx, rsp, rbp, rsi, rdi, r8, r9, r10, r11, r12, r13, r14, r15]

/-- The register's number in instruction encodings. -/
def index : Gpr → Fin 16
  | rax => 0
  | rcx => 1
  | rdx => 2
  | rbx => 3
  | rsp => 4
  | rbp => 5
  | rsi => 6
  | rdi => 7
  | r8 => 8
  | r9 => 9
  | r10 => 10
  | r11 => 11
  | r12 => 12
  | r13 => 13
  | r14 => 14
  | r15 => 15

/-- The register of a four-bit number. -/
def ofIndex (i : Fin 16) : Gpr :=
  match i.val with
  | 0 => rax
  | 1 => rcx
  | 2 => rdx
  | 3 => rbx
  | 4 => rsp
  | 5 => rbp
  | 6 => rsi
  | 7 => rdi
  | 8 => r8
  | 9 => r9
  | 10 => r10
  | 11 => r11
  | 12 => r12
  | 13 => r13
  | 14 => r14
  | _ => r15

/-- The register of a number, if the number has four bits. -/
def ofNat? (n : Nat) : Option Gpr :=
  if h : n < 16 then some (ofIndex ⟨n, h⟩) else none

@[simp] theorem ofIndex_index (g : Gpr) : ofIndex g.index = g := by
  cases g <;> rfl

@[simp] theorem index_ofIndex (i : Fin 16) : (ofIndex i).index = i := by
  revert i; decide

/-- Registers with the same number are the same. -/
theorem index_inj {g h : Gpr} (e : g.index = h.index) : g = h := by
  rw [← ofIndex_index g, ← ofIndex_index h, e]

/-- Name of the whole register. -/
def name : Gpr → String
  | rax => "rax"
  | rcx => "rcx"
  | rdx => "rdx"
  | rbx => "rbx"
  | rsp => "rsp"
  | rbp => "rbp"
  | rsi => "rsi"
  | rdi => "rdi"
  | r8 => "r8"
  | r9 => "r9"
  | r10 => "r10"
  | r11 => "r11"
  | r12 => "r12"
  | r13 => "r13"
  | r14 => "r14"
  | r15 => "r15"

/-- Name of the low 32 bits. -/
def name32 : Gpr → String
  | rax => "eax"
  | rcx => "ecx"
  | rdx => "edx"
  | rbx => "ebx"
  | rsp => "esp"
  | rbp => "ebp"
  | rsi => "esi"
  | rdi => "edi"
  | g => g.name ++ "d"

/-- Name of the low 16 bits. -/
def name16 : Gpr → String
  | rax => "ax"
  | rcx => "cx"
  | rdx => "dx"
  | rbx => "bx"
  | rsp => "sp"
  | rbp => "bp"
  | rsi => "si"
  | rdi => "di"
  | g => g.name ++ "w"

/-- Name of the low byte. -/
def name8 : Gpr → String
  | rax => "al"
  | rcx => "cl"
  | rdx => "dl"
  | rbx => "bl"
  | rsp => "spl"
  | rbp => "bpl"
  | rsi => "sil"
  | rdi => "dil"
  | g => g.name ++ "b"

/-- Name of bits 8 to 15, which the numbers 4 to 7 select without a REX byte. -/
def nameHigh (g : Gpr) : String :=
  match g.index.val % 4 with
  | 0 => "ah"
  | 1 => "ch"
  | 2 => "dh"
  | _ => "bh"

end Gpr

/-- A general-purpose register as an operand sees it. -/
inductive Reg where
  /-- The low bits of `gpr` at `width`. -/
  | low (gpr : Gpr) (width : Width)
  /-- Bits 8 to 15 of `gpr`. -/
  | high (gpr : Gpr)
deriving DecidableEq, Inhabited

namespace Reg

/-- The register that holds the bits. -/
def gpr : Reg → Gpr
  | low g _ => g
  | high g => g

/-- How many bits are seen. -/
def width : Reg → Width
  | low _ w => w
  | high _ => .w8

/-- Name in disassembly. -/
def name : Reg → String
  | low g .w8 => g.name8
  | low g .w16 => g.name16
  | low g .w32 => g.name32
  | low g .w64 => g.name
  | high g => g.nameHigh

end Reg

end Amd64
