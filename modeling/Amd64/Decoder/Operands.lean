import Amd64.Decoder.Prefixes

namespace Amd64

/-!
# Operands in encodings

* `RegMem`          — a register number or a memory operand, which the same field encodes;
* `ModRm`           — the operand byte with all that belongs to it;
* `Prefixes.modRm`  — reads it;
* `Prefixes.reg`, `Prefixes.operand`, `Prefixes.vecOperand` — the operands that its parts stand for.
-/

/-- A register number or a memory operand. -/
inductive RegMem where
  | reg (code : Fin 16)
  | mem (address : Address)
deriving DecidableEq, Inhabited

/-- The contents of an operand byte and what follows it. -/
structure ModRm where
  /-- The register field with its extension. -/
  reg : Fin 16
  /-- The register field alone, which extends the opcode of some instructions. -/
  digit : Fin 8
  rm : RegMem
deriving DecidableEq, Inhabited

/-- Three bits of a byte from bit `shift` on. -/
def bitField (byte : UInt8) (shift : Nat) : Fin 8 :=
  ⟨(byte.toNat >>> shift) % 8, Nat.mod_lt _ (by decide)⟩

/-- A three-bit field with its extension bit above it. -/
def extendField (high : Bool) (low : Fin 8) : Fin 16 :=
  ⟨low.val + bif high then 8 else 0, by cases high <;> simp <;> omega⟩

/-- The scale in the top two bits of a byte. -/
def scaleField (byte : UInt8) : Scale :=
  match byte.toNat >>> 6 with
  | 0 => .one
  | 1 => .two
  | 2 => .four
  | _ => .eight

namespace Prefixes

/-- A register at a width. Without a REX byte the numbers 4 to 7 select the second bytes of the first four
registers. -/
def reg (p : Prefixes) (code : Fin 16) (w : Width) : Reg :=
  if w = .w8 ∧ p.hasRex = false ∧ 4 ≤ code.val ∧ code.val < 8 then
    .high (.ofIndex ⟨code.val - 4, by omega⟩)
  else .low (.ofIndex code) w

/-- A register operand. -/
def regOperand (p : Prefixes) (code : Fin 16) (w : Width) : Operand :=
  .reg (p.reg code w)

/-- A register or memory operand. -/
def operand (p : Prefixes) (rm : RegMem) (w : Width) : Operand :=
  match rm with
  | .reg code => p.regOperand code w
  | .mem a => .mem a

/-- The accumulator as an operand. -/
def accumulator (p : Prefixes) (w : Width) : Operand :=
  p.regOperand Gpr.rax.index w

/-- The register that the low three bits of an opcode select. -/
def opcodeRegister (p : Prefixes) (op : UInt8) : Fin 16 :=
  extendField p.extension.b (bitField op 0)

/-- An address without registers and displacement. -/
def bareAddress (p : Prefixes) : Address :=
  ⟨.zero, none, .one, 0, p.segment, p.narrow⟩

/-- Reads the byte that holds scale, index and base, and the displacement that stands for a missing base. -/
def scaledAddress (p : Prefixes) (mode : Nat) : Reader Address := do
  let sib ← Reader.byte
  let index := extendField p.extension.x (bitField sib 3)
  let base := extendField p.extension.b (bitField sib 0)
  let a := { p.bareAddress with
    scale := scaleField sib
    index := if index.val = 4 then none else some (.ofIndex index) }
  if (bitField sib 0).val = 5 ∧ mode = 0 then
    return { a with displacement := ← Reader.int32 }
  else
    return { a with base := .register (.ofIndex base) }

/-- Reads the part of an address that the operand field `low` selects in `mode`. -/
def baseAddress (p : Prefixes) (mode : Nat) (low : Fin 8) : Reader Address := do
  if low.val = 4 then p.scaledAddress mode
  else if low.val = 5 ∧ mode = 0 then
    return { p.bareAddress with base := .next, displacement := ← Reader.int32 }
  else
    return { p.bareAddress with base := .register (.ofIndex (extendField p.extension.b low)) }

/-- Reads a memory operand: its registers, then the displacement that `mode` asks for. -/
def address (p : Prefixes) (mode : Nat) (low : Fin 8) : Reader Address := do
  let a ← p.baseAddress mode low
  match mode with
  | 1 => return { a with displacement := a.displacement + (← Reader.int8) }
  | 2 => return { a with displacement := a.displacement + (← Reader.int32) }
  | _ => return a

/-- Reads an operand byte and what belongs to it. -/
def modRm (p : Prefixes) : Reader ModRm := do
  let byte ← Reader.byte
  let mode := byte.toNat >>> 6
  let digit := bitField byte 3
  let low := bitField byte 0
  let reg := extendField p.extension.r digit
  if mode = 3 then return ⟨reg, digit, .reg (extendField p.extension.b low)⟩
  else return ⟨reg, digit, .mem (← p.address mode low)⟩

end Prefixes

/-- A vector register operand. -/
def vecRegister (size : VecSize) (code : Fin 16) : Operand :=
  .vec ⟨code, size⟩

/-- A vector register or memory operand. -/
def vecOperand (size : VecSize) : RegMem → Operand
  | .reg code => vecRegister size code
  | .mem a => .mem a

end Amd64
