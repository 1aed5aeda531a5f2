import Amd64.Machine.Cpu
import Amd64.Memory.Layout

namespace Amd64

/-!
# The stack of a new machine

`Memory.mapStackOn` adds a stack of whole pages to an address space and yields a processor whose stack pointer
is 16 bytes below the top.
-/

/-- Place and size of a stack. -/
structure StackConfig where
  /-- The top of the stack. -/
  address : UInt64 := 0x7ffffffff000
  /-- Bytes below the top. -/
  size : UInt64 := 0x800000
deriving DecidableEq, Inhabited

/-- Greatest number of instructions of a block, unless another number is asked for. -/
def defaultBlockLimit : Nat := 256

namespace StackConfig

/-- The top in whole pages. -/
def top (c : StackConfig) : UInt64 :=
  Page.ceil c.address

/-- The lowest address of the stack. -/
def bottom (c : StackConfig) : UInt64 :=
  let size := Page.ceil c.size
  if c.top < size then 0 else Page.floor (c.top - size)

end StackConfig

namespace Memory

/-- Maps a stack. -/
def mapStackOn (host : Host) (c : StackConfig) : MemoryM Cpu := do
  if c.top ≤ c.bottom then throw (.badRange c.bottom c.top)
  mapOn host ⟨c.bottom, c.top, .readWrite, 0, "[stack]"⟩ ByteArray.empty
  return Cpu.initial.setGpr .rsp (c.address - 16)

/-- Maps a stack where storage is no concern. -/
def mapStack (c : StackConfig) : MemoryM Cpu :=
  mapStackOn .ample c

end Memory

end Amd64
