import Amd64.Text.Hex

namespace Amd64

/-!
# Why a trace cannot be written or read
-/

/-- What is wrong with a field. -/
inductive FieldProblem where
  | longString
  | longArray
  | longPayload
  | manyVectors
  | eventSize
  | eventDirection
deriving DecidableEq, Inhabited

/-- The problem in words. -/
def FieldProblem.message : FieldProblem → String
  | longString => "string does not fit in u16"
  | longArray => "array does not fit in u32"
  | longPayload => "record payload does not fit in u32"
  | manyVectors => "too many vector registers"
  | eventSize => "memory event size"
  | eventDirection => "memory event direction"

/-- Why a trace cannot be written or read. -/
inductive TraceError where
  /-- The stream ends inside a record. -/
  | unexpectedEnd
  /-- The contents of a record need `actual` bytes, and the record declares another number. -/
  | sizeMismatch (tag declared actual : Nat)
  | corrupt (problem : FieldProblem)
  /-- A string is not valid UTF-8 from a position on. -/
  | utf8 (validUpTo : Nat)
deriving DecidableEq, Inhabited

/-- The error in words, if it has words of its own. -/
def TraceError.message : TraceError → String
  | unexpectedEnd => "io error: unexpected end of file"
  | sizeMismatch tag declared actual =>
    "record 0x" ++ hexPadded 8 tag ++ ": declared " ++ toString declared ++ " bytes, payload was "
      ++ toString actual
  | corrupt problem => "corrupt trace: " ++ problem.message
  | utf8 n => "utf-8 decoding failed: invalid utf-8 sequence from index " ++ toString n

end Amd64
