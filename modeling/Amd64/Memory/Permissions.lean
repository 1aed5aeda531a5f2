namespace Amd64

/-!
# Access permissions

* `Access`       — what an access wants to do with memory;
* `Permissions`  — what a segment permits.
-/

/-- Kind of access to memory. -/
inductive Access where
  | read
  | write
  | execute
  /-- A change of permissions. -/
  | protect
deriving DecidableEq, Inhabited

/-- Name of the access in messages. -/
def Access.name : Access → String
  | read => "read"
  | write => "write"
  | execute => "execute"
  | protect => "protect"

/-- What may be done with the bytes of a segment. -/
structure Permissions where
  read : Bool
  write : Bool
  execute : Bool
deriving DecidableEq, Inhabited

namespace Permissions

/-- Data that may be changed. -/
def readWrite : Permissions := ⟨true, true, false⟩

/-- Code. -/
def readExecute : Permissions := ⟨true, false, true⟩

/-- The permissions in the low three bits of `n`: read, write, execute. -/
def ofBits (n : Nat) : Permissions :=
  ⟨n.testBit 0, n.testBit 1, n.testBit 2⟩

/-- Read, write and execute as bits 0, 1 and 2. -/
def bits (p : Permissions) : Nat :=
  p.read.toNat + 2 * p.write.toNat + 4 * p.execute.toNat

@[simp] theorem ofBits_bits (p : Permissions) : ofBits p.bits = p := by
  rcases p with ⟨r, w, x⟩
  revert r w x
  decide

/-- Whether an access is permitted. Permissions themselves may always be changed. -/
def allows (p : Permissions) : Access → Bool
  | .read => p.read
  | .write => p.write
  | .execute => p.execute
  | .protect => true

/-- Three letters or dashes and a closing `p`, as in `rw-p`. -/
def text (p : Permissions) : String :=
  String.ofList
    [bif p.read then 'r' else '-', bif p.write then 'w' else '-', bif p.execute then 'x' else '-',
      'p']

end Permissions

end Amd64
