namespace Amd64

/-!
# Reading numbers

Unsigned 64-bit numbers are read from digits with an optional plus sign before them.

* `parseDigits`  — digits of a base;
* `parseDecimal` — a decimal number;
* `parseNumber`  — a decimal or, behind `0x`, hexadecimal number whose digits may have underscores between
  them.
-/

/-- Why text is not a number. -/
inductive NumberProblem where
  | empty
  | badDigit
  | tooLarge
deriving DecidableEq, Inhabited

/-- The problem in words. -/
def NumberProblem.message : NumberProblem → String
  | empty => "cannot parse integer from empty string"
  | badDigit => "invalid digit found in string"
  | tooLarge => "number too large to fit in target type"

/-- The value of a digit in a base of at most sixteen. -/
def digitValue? (base : Nat) (c : Char) : Option Nat :=
  let n := c.toNat
  let value :=
    if 48 ≤ n ∧ n ≤ 57 then n - 48
    else if 97 ≤ n ∧ n ≤ 102 then n - 87
    else if 65 ≤ n ∧ n ≤ 70 then n - 55
    else base
  if value < base then some value else none

/-- The number whose first digits have the value `acc` and whose further digits are given. The first digit
that does not fit decides what is wrong. -/
def parseDigits (base acc : Nat) : List Char → Except NumberProblem UInt64
  | [] => .ok (UInt64.ofNat acc)
  | c :: cs =>
    match digitValue? base c with
    | none => .error .badDigit
    | some d =>
      let next := acc * base + d
      if next < UInt64.size then parseDigits base next cs else .error .tooLarge

/-- A number with an optional plus sign. A sign alone is no number. -/
def parseSigned (base : Nat) : List Char → Except NumberProblem UInt64
  | [] => .error .empty
  | ['+'] => .error .badDigit
  | '+' :: cs => parseDigits base 0 cs
  | cs => parseDigits base 0 cs

/-- A decimal number. -/
def parseDecimal (s : String) : Except NumberProblem UInt64 :=
  parseSigned 10 s.toList

/-- A decimal or, behind `0x`, hexadecimal number. Underscores do not count. -/
def parseNumber (s : String) : Except NumberProblem UInt64 :=
  match s.toList with
  | '0' :: 'x' :: cs => parseSigned 16 (cs.filter (· ≠ '_'))
  | '0' :: 'X' :: cs => parseSigned 16 (cs.filter (· ≠ '_'))
  | cs => parseSigned 10 (cs.filter (· ≠ '_'))

end Amd64
