namespace Amd64

/-!
# Hexadecimal text

Numbers are written in lower case without leading zeros, or padded with zeros to a least length.
-/

/-- The digit of a value below sixteen. -/
def hexDigit (n : Nat) : Char :=
  if n < 10 then Char.ofNat (n + 48) else Char.ofNat (n + 87)

/-- The hexadecimal digits of `n`, most significant first, in front of `acc`. -/
def hexDigits (n : Nat) (acc : List Char) : List Char :=
  if n < 16 then hexDigit n :: acc
  else hexDigits (n / 16) (hexDigit (n % 16) :: acc)
decreasing_by omega

/-- `n` in lower-case hexadecimal without leading zeros. -/
def hex (n : Nat) : String :=
  String.ofList (hexDigits n [])

/-- `n` in lower-case hexadecimal with at least `len` digits. -/
def hexPadded (len n : Nat) : String :=
  let digits := hexDigits n []
  String.ofList (List.replicate (len - digits.length) '0' ++ digits)

/-- `n` in hexadecimal behind `0x`. -/
def hex0x (n : Nat) : String :=
  "0x" ++ hex n

end Amd64
