import Amd64.LittleEndian
import Amd64.Text.Hex

namespace Amd64

/-!
# Byte strings

Storage and bulk transfers use packed byte strings. Here are their views as lists and as numbers, and
strings of zeros.
-/

/-- The bytes of a packed string in order. -/
def byteList (bs : ByteArray) : List UInt8 :=
  bs.data.toList

/-- The packed string of a list of bytes. -/
def packed (bs : List UInt8) : ByteArray :=
  ⟨bs.toArray⟩

@[simp] theorem byteList_packed (bs : List UInt8) : byteList (packed bs) = bs := by
  simp [byteList, packed]

@[simp] theorem length_byteList (bs : ByteArray) : (byteList bs).length = bs.size := rfl

theorem byteList_injective {a b : ByteArray} (h : byteList a = byteList b) : a = b :=
  ByteArray.ext (Array.toList_inj.mp h)

@[simp] theorem byteList_append (a b : ByteArray) :
    byteList (a ++ b) = byteList a ++ byteList b := by
  simp [byteList]

@[simp] theorem byteList_extract (bs : ByteArray) (i j : Nat) :
    byteList (bs.extract i j) = ((byteList bs).drop i).take (j - i) := by
  simp [byteList]

/-- Replaced bytes stand between the bytes before and behind them. -/
theorem byteList_copySlice (src dst : ByteArray) (i j n : Nat) :
    byteList (src.copySlice i dst j n) =
      (byteList dst).take j ++ ((byteList src).drop i).take n
        ++ (byteList dst).drop (j + min n (src.size - i)) := by
  have h (k : Nat) : (dst.data.toList.drop k).take (dst.size - k) = dst.data.toList.drop k :=
    List.take_of_length_le (Nat.le_of_eq List.length_drop)
  simp [byteList, ByteArray.copySlice, h]

/-- The number that a packed string holds in little-endian order. -/
def littleEndian (bs : ByteArray) : Nat :=
  LittleEndian.value (byteList bs)

/-- A packed string of `n` zero bytes, built by doubling. -/
def zeros (n : Nat) : ByteArray :=
  if n = 0 then ByteArray.empty
  else
    let half := zeros (n / 2)
    let twice := half ++ half
    if n % 2 = 0 then twice else twice.push 0
decreasing_by omega

theorem size_zeros (n : Nat) : (zeros n).size = n := by
  induction n using Nat.strongRecOn with
  | ind n ih =>
    rw [zeros]
    split
    · simp_all
    · next h =>
      have hh := ih (n / 2) (by omega)
      split <;> simp [ByteArray.size_append, ByteArray.size_push, hh] <;> omega

/-- Two hexadecimal digits. -/
def hexByte (b : UInt8) : String :=
  hexPadded 2 b.toNat

end Amd64
