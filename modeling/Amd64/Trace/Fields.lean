import Amd64.Bytes
import Amd64.Trace.Error

namespace Amd64

/-!
# Fields of records as bytes

Numbers are little-endian. A string is preceded by its length in two bytes and a byte array by its length in
four; an absent one and an empty one are written alike, and are read as absent.

* `Field.string`, `Field.array` — how fields are written;
* `FieldReader`                 — reads fields from the front of a list of bytes;
* `FieldReader.take`            — the next bytes. Where they are too few, those that are left are used up.
-/

namespace Field

/-- A string. -/
def string (s : Option String) : Except TraceError (List UInt8) :=
  let bytes := byteList (s.getD "").toUTF8
  if bytes.length < UInt16.size then .ok (LittleEndian.bytes 2 bytes.length ++ bytes)
  else .error (.corrupt .longString)

/-- A byte array. -/
def array (data : Option (List UInt8)) : Except TraceError (List UInt8) :=
  let bytes := data.getD []
  if bytes.length < UInt32.size then .ok (LittleEndian.bytes 4 bytes.length ++ bytes)
  else .error (.corrupt .longArray)

/-- Number of bytes of a string. -/
def stringSize (s : Option String) : Nat :=
  2 + (s.getD "").utf8ByteSize

/-- Number of bytes of a byte array. -/
def arraySize (data : Option (List UInt8)) : Nat :=
  4 + (data.getD []).length

/-- Length of the longest part from position `i` on that is valid UTF-8, in at most `fuel` characters. -/
def utf8Extent (bs : ByteArray) : Nat → Nat → Nat
  | 0, i => i
  | fuel + 1, i =>
    match bs.utf8DecodeChar? i with
    | some c => utf8Extent bs fuel (i + c.utf8Size)
    | none => i

/-- The string of a list of bytes. -/
def decodeString (bytes : List UInt8) : Except TraceError String :=
  let bs := packed bytes
  match String.fromUTF8? bs with
  | some s => .ok s
  | none => .error (.utf8 (utf8Extent bs bs.size 0))

end Field

/-- Reads fields from the front of a list of bytes. -/
abbrev FieldReader := ExceptT TraceError (StateM (List UInt8))

namespace FieldReader

/-- The next `n` bytes. -/
def take (n : Nat) : FieldReader (List UInt8) :=
  ExceptT.mk fun bs =>
    let (taken, rest) := bs.splitAt n
    if taken.length = n then (.ok taken, rest) else (.error .unexpectedEnd, rest)

/-- The number in the next `n` bytes. -/
def number (n : Nat) : FieldReader Nat := do
  return LittleEndian.value (← take n)

/-- A byte array. -/
def array : FieldReader (Option (List UInt8)) := do
  let n ← number 4
  if n = 0 then return none else return some (← take n)

/-- A string. -/
def string : FieldReader (Option String) := do
  let n ← number 2
  if n = 0 then return none
  else
    match Field.decodeString (← take n) with
    | .ok s => return some s
    | .error e => throw e

end FieldReader

end Amd64
