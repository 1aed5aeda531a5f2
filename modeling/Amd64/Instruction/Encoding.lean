import Amd64.Bytes

namespace Amd64

/-!
# Encodings of instructions

An instruction is encoded in at most fifteen bytes.
-/

/-- The bytes of one instruction. -/
structure Encoding where
  bytes : List UInt8
  length_le : bytes.length ≤ 15
deriving DecidableEq

namespace Encoding

/-- Greatest number of bytes. -/
def maxSize : Nat := 15

/-- The first bytes of `bs`, fifteen at most. -/
def ofBytes (bs : List UInt8) : Encoding where
  bytes := bs.take maxSize
  length_le := by rw [List.length_take]; exact Nat.min_le_left _ _

/-- The encoding without bytes. -/
def empty : Encoding := ofBytes []

instance : Inhabited Encoding := ⟨empty⟩

/-- Number of bytes. -/
def size (e : Encoding) : Nat :=
  e.bytes.length

/-- The bytes in hexadecimal with blanks between them. -/
def text (e : Encoding) : String :=
  " ".intercalate (e.bytes.map hexByte)

end Encoding

end Amd64
