import Amd64.Memory.Permissions
import Amd64.Text.Hex

namespace Amd64

/-!
# Segments

A segment is a named, contiguous range of addresses with one set of permissions.
-/

/-- The addresses from `start` up to, but not including, `stop`. -/
structure Segment where
  start : UInt64
  stop : UInt64
  permissions : Permissions
  /-- Position of the first byte in the object that backs the segment. -/
  offset : UInt64
  name : String
deriving DecidableEq, Inhabited

namespace Segment

/-- Whether `a` lies in the segment. -/
def contains (s : Segment) (a : UInt64) : Bool :=
  s.start ≤ a && a < s.stop

/-- Number of addresses. -/
def size (s : Segment) : Nat :=
  s.stop.toNat - s.start.toNat

/-- Whether the segment holds no address. -/
def isEmpty (s : Segment) : Bool :=
  s.stop ≤ s.start

/-- One line of a table of segments: range, permissions, offset and name. -/
def text (s : Segment) : String :=
  hex s.start.toNat ++ "-" ++ hex s.stop.toNat ++ " " ++ s.permissions.text ++ " "
    ++ hexPadded 8 s.offset.toNat ++ " " ++ s.name

end Segment

end Amd64
