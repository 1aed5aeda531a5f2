import Amd64.Memory.Permissions
import Amd64.Text.Hex

namespace Amd64

/-!
# Why a memory operation fails

* `MemoryError`          — the causes;
* `MemoryError.message`  — their wording.
-/

/-- Cause of a failed memory operation. -/
inductive MemoryError where
  /-- An access of `size` bytes at `addr` meets an unmapped byte. -/
  | unmapped (addr size : UInt64)
  /-- An access of `size` bytes at `addr` meets a byte that does not permit it. -/
  | denied (addr size : UInt64) (access : Access)
  /-- No room for `size` bytes. -/
  | noSpace (size : UInt64)
  /-- No segment starts at `addr`. -/
  | notStart (addr : UInt64)
  /-- The range meets a segment that is there already. -/
  | overlap (start stop : UInt64)
  /-- The range is empty, reversed or does not fit. -/
  | badRange (start stop : UInt64)
deriving DecidableEq, Inhabited

namespace MemoryError

/-- Where the error occurred, if it has a place. -/
def addr? : MemoryError → Option UInt64
  | unmapped a _ => some a
  | denied a _ _ => some a
  | noSpace _ => none
  | notStart a => some a
  | overlap a _ => some a
  | badRange a _ => some a

/-- Whether a running program caused the error by an access. -/
def isFault : MemoryError → Bool
  | unmapped _ _ => true
  | denied _ _ _ => true
  | _ => false

/-- The error in words. -/
def message : MemoryError → String
  | unmapped a n =>
    "segmentation fault: " ++ toString n.toNat ++ "-byte access at " ++ hex0x a.toNat
  | denied a n access =>
    "access violation: " ++ access.name ++ " of " ++ toString n.toNat ++ " byte(s) at "
      ++ hex0x a.toNat
  | noSpace n => "out of address space: no free range of " ++ hex0x n.toNat ++ " bytes"
  | notStart a => hex0x a.toNat ++ " is not the start of a mapped segment"
  | overlap a b =>
    "range " ++ hex0x a.toNat ++ "-" ++ hex0x b.toNat ++ " overlaps an existing segment"
  | badRange a b => "invalid range " ++ hex0x a.toNat ++ "-" ++ hex0x b.toNat

end MemoryError

end Amd64
