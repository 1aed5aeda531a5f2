namespace Amd64

/-!
# Condition codes

The sixteen conditions of conditional jumps, sets and moves, in the order of their encoding.
-/

/-- A condition, named as in the mnemonic (`e` in `je`, `sete` and `cmove`). -/
inductive Condition where
  | o | no | b | ae | e | ne | be | a | s | ns | p | np | l | ge | le | g
deriving DecidableEq, Inhabited

namespace Condition

/-- All conditions in encoding order. -/
def all : List Condition :=
  [o, no, b, ae, e, ne, be, a, s, ns, p, np, l, ge, le, g]

/-- The condition that the low four bits of an opcode select. -/
def ofOpcode (op : UInt8) : Condition :=
  match (op &&& 0x0f).toNat with
  | 0 => o
  | 1 => no
  | 2 => b
  | 3 => ae
  | 4 => e
  | 5 => ne
  | 6 => be
  | 7 => a
  | 8 => s
  | 9 => ns
  | 10 => p
  | 11 => np
  | 12 => l
  | 13 => ge
  | 14 => le
  | _ => g

/-- Position in encoding order. -/
def code : Condition → Nat
  | o => 0
  | no => 1
  | b => 2
  | ae => 3
  | e => 4
  | ne => 5
  | be => 6
  | a => 7
  | s => 8
  | ns => 9
  | p => 10
  | np => 11
  | l => 12
  | ge => 13
  | le => 14
  | g => 15

@[simp] theorem ofOpcode_code (c : Condition) : ofOpcode (UInt8.ofNat c.code) = c := by
  cases c <;> decide

/-- Ending of the mnemonic. -/
def suffix : Condition → String
  | o => "o"
  | no => "no"
  | b => "b"
  | ae => "ae"
  | e => "e"
  | ne => "ne"
  | be => "be"
  | a => "a"
  | s => "s"
  | ns => "ns"
  | p => "p"
  | np => "np"
  | l => "l"
  | ge => "ge"
  | le => "le"
  | g => "g"

end Condition

end Amd64
