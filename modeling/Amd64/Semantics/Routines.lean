import Amd64.Semantics.Exec

namespace Amd64

/-!
# Intrinsic routines

An intrinsic routine takes the place of a function in guest code. It has its arguments in `rdi`, `rsi` and
`rdx`, leaves its result in `rax`, and returns to the address on the stack.

* `IntrinsicTable` — which addresses have routines;
* `Exec.intrinsic` — performs a routine and yields the address to continue at.
-/

/-- The routines by address, in address order. -/
structure IntrinsicTable where
  entries : List (UInt64 × Intrinsic)
deriving DecidableEq, Inhabited

namespace IntrinsicTable

/-- A table without routines. -/
def empty : IntrinsicTable := ⟨[]⟩

/-- The routine at an address. -/
def get? (t : IntrinsicTable) (a : UInt64) : Option Intrinsic :=
  t.entries.lookup a

/-- Puts an entry at its place, instead of one with the same address. -/
def insertEntry (a : UInt64) (id : Intrinsic) :
    List (UInt64 × Intrinsic) → List (UInt64 × Intrinsic)
  | [] => [(a, id)]
  | (b, x) :: rest =>
    if a < b then (a, id) :: (b, x) :: rest
    else if a = b then (a, id) :: rest
    else (b, x) :: insertEntry a id rest

/-- Installs a routine. -/
def register (t : IntrinsicTable) (a : UInt64) (id : Intrinsic) : IntrinsicTable :=
  ⟨insertEntry a id t.entries⟩

/-- Removes the routine at an address. -/
def unregister (t : IntrinsicTable) (a : UInt64) : IntrinsicTable :=
  ⟨t.entries.filter fun e => e.1 ≠ a⟩

/-- Whether there are no routines. -/
def isEmpty (t : IntrinsicTable) : Bool :=
  t.entries.isEmpty

end IntrinsicTable

namespace Exec

variable {σ : Type} [Bus σ]

/-- Greatest number of bytes that the copying routines transfer at once. -/
def chunkSize : Nat := 4096

/-- The first address from `a` on whose byte is zero or meets `stop`, among the next `n`. Behind the last of
them the scan ends as at an unmapped byte. -/
def scanFor (stop : UInt8 → Bool) : Nat → UInt64 → Exec σ UInt64
  | 0, a => throw (.memory (.unmapped a 1))
  | n + 1, a => do
    let b := (← access (Bus.readWord .w8 a)).toUInt8
    if b = 0 || stop b then return a
    else scanFor stop n (a + 1)

/-- The first address from `a` on whose byte is zero or meets `stop`. No segment holds the greatest
address, so a scan never passes it. -/
def scan (stop : UInt8 → Bool) (a : UInt64) : Exec σ UInt64 :=
  scanFor stop (UInt64.size - a.toNat) a

/-- Copies `n` bytes, chunk by chunk. -/
def copyBytes (dst src : UInt64) (n : Nat) : Exec σ Unit := do
  if n = 0 then return
  else
    let size := min n chunkSize
    let bytes ← access (Bus.readBytes src size)
    access (Bus.writeBytes dst bytes)
    copyBytes (dst + UInt64.ofNat size) (src + UInt64.ofNat size) (n - size)
termination_by n
decreasing_by simp only [chunkSize]; omega

/-- Writes `n` copies of a byte, chunk by chunk. -/
def fillBytes (dst : UInt64) (b : UInt8) (n : Nat) : Exec σ Unit := do
  if n = 0 then return
  else
    let size := min n chunkSize
    access (Bus.writeBytes dst (packed (List.replicate size b)))
    fillBytes (dst + UInt64.ofNat size) b (n - size)
termination_by n
decreasing_by simp only [chunkSize]; omega

/-- The result of a routine with the given registers. -/
def routine (id : Intrinsic) (s : Cpu) : Exec σ UInt64 := do
  let target := s.gpr .rdi
  let source := s.gpr .rsi
  let count := (s.gpr .rdx).toNat
  match id with
  | .strlen => return (← scan (fun _ => false) target) - target
  | .strchrnul => scan (fun b => b = source.toUInt8) target
  | .memcpy =>
    copyBytes target source count
    return target
  | .memset =>
    fillBytes target source.toUInt8 count
    return target

/-- Performs a routine and yields the address to continue at. -/
def intrinsic (id : Intrinsic) : Exec σ UInt64 := do
  let s ← cpu
  let top := s.gpr .rsp
  let target ← access (Bus.readWord .w64 top)
  let result ← routine id s
  setGpr .rax result
  setGpr .rsp (top + 8)
  return target

end Exec

end Amd64
