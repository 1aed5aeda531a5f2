import Amd64.Machine.Stack
import Amd64.Proofs.Memory.Allocate
import Amd64.Proofs.Semantics.Stack

namespace Amd64

/-!
# The stack that a new machine gets

The top and the size of a stack are rounded up to whole pages one by one, and the stack pointer counts from the top
as it was asked for.

* `StackConfig.Promises`, `StackConfig.Fits` — the addresses below the top that were asked for, and when rounding
  leaves them in the stack;
* `StackConfig.covers_iff`         — it does not always;
* `Memory.MapsStack`               — what mapping a stack does, on any host;
* `Memory.newStack_covers_iff`     — one segment is added, in which numbers can be pushed where rounding allows it.
-/

/-! ### Rounding -/

namespace Page

/-- Rounding up stops at the last page boundary. -/
theorem toNat_ceil (n : UInt64) :
    (ceil n).toNat = min ((n.toNat + 4095) / 4096 * 4096) (UInt64.size - 4096) := by
  have hsize : UInt64.size = 18446744073709551616 := rfl
  unfold ceil
  cases hceil : ceil? n with
  | some len =>
    obtain ⟨hsmall, hlen⟩ := ceil?_eq_some_iff.mp hceil
    rw [Option.getD_some, hlen]
    omega
  | none =>
    have hlarge : UInt64.size ≤ n.toNat + 4095 := by
      by_contra hsmall
      rw [ceil?, if_pos (Nat.not_le.mp hsmall)] at hceil
      cases hceil
    have hlast : (floor (-1)).toNat = UInt64.size - 4096 := by decide +kernel
    rw [Option.getD_none, hlast]
    omega

/-- A rounded size is one of whole pages. -/
theorem dvd_toNat_ceil (n : UInt64) : 4096 ∣ (ceil n).toNat := by
  have hsize : UInt64.size = 18446744073709551616 := rfl
  have hceil := toNat_ceil n
  omega

end Page

namespace StackConfig

variable {c : StackConfig}

/-- Of the addresses below the top, those that were asked for. -/
def Promises (c : StackConfig) (x : Nat) : Prop :=
  c.address.toNat - c.size.toNat ≤ x ∧ x < c.address.toNat

/-- The top is not above the last page boundary, and rounding it up adds no more than rounding up the size does,
    unless the stack begins at zero. -/
structure Fits (c : StackConfig) : Prop where
  address_le : c.address.toNat ≤ UInt64.size - 4096
  added_le : c.bottom.toNat = 0 ∨
    c.top.toNat - c.address.toNat ≤ (Page.ceil c.size).toNat - c.size.toNat

/-- The bottom is below the top by the rounded size. -/
theorem toNat_bottom (c : StackConfig) : c.bottom.toNat = c.top.toNat - (Page.ceil c.size).toNat := by
  unfold bottom
  by_cases hlt : c.top < Page.ceil c.size
  · rw [if_pos hlt, Nat.sub_eq_zero_of_le (Nat.le_of_lt (UInt64.lt_iff_toNat_lt.mp hlt))]
    rfl
  · have hle : Page.ceil c.size ≤ c.top := UInt64.not_lt.mp hlt
    have htop := Page.dvd_toNat_ceil c.address
    have hsize := Page.dvd_toNat_ceil c.size
    rw [if_neg hlt, Page.toNat_floor, UInt64.toNat_sub_of_le _ _ hle]
    exact Nat.div_mul_cancel (Nat.dvd_sub htop hsize)

/-- **Rounding.** The addresses that were asked for are in the stack exactly under these conditions. -/
theorem covers_iff (h : c.bottom < c.top) :
    (∀ x, c.Promises x → c.bottom.toNat ≤ x ∧ x < c.top.toNat) ↔ c.Fits := by
  have hlt := UInt64.lt_iff_toNat_lt.mp h
  have hbottom := c.toNat_bottom
  have htop : c.top.toNat = _ := Page.toNat_ceil c.address
  have hsize := Page.toNat_ceil c.size
  have hword : UInt64.size = 18446744073709551616 := rfl
  constructor
  · intro hcovers
    -- the lowest and the highest of the addresses decide
    have hlow := (hcovers (c.address.toNat - c.size.toNat) ⟨Nat.le_refl _, by omega⟩).1
    have hhigh := (hcovers (c.address.toNat - 1) ⟨by omega, by omega⟩).2
    exact ⟨by omega, by omega⟩
  · rintro ⟨haddress, hadded⟩ x ⟨hlow, hhigh⟩
    omega

/-- A top on a page boundary is left where it is. -/
theorem fits_of_dvd (h : 4096 ∣ c.address.toNat) : c.Fits := by
  have hbottom := c.toNat_bottom
  have htop : c.top.toNat = _ := Page.toNat_ceil c.address
  have hlt := c.address.toNat_lt_size
  have hword : UInt64.size = 18446744073709551616 := rfl
  exact ⟨by omega, by omega⟩

end StackConfig

/-! ### Mapping -/

namespace Memory

/-- What mapping a stack on a host does. -/
structure MapsStack (m : Memory) (host : Host) (c : StackConfig) (result : Except MemoryError Cpu × Memory) :
    Prop where
  /-- It succeeds if and only if the stack is not empty, there is storage for it, and it meets no segment. -/
  isOk_iff : (∃ s, result.1 = .ok s) ↔ c.bottom < c.top ∧ host.affords (c.top - c.bottom) = true ∧
    ∀ r ∈ m.segments, r.stop.toNat ≤ c.bottom.toNat ∨ c.top.toNat ≤ r.start.toNat
  /-- All registers are zero but the stack pointer. -/
  registers : ∀ s, result.1 = .ok s → s = Cpu.initial.setGpr .rsp (c.address - 16)
  /-- One segment is added, for whole pages, with its permissions and name. -/
  segments : ∀ s, result.1 = .ok s → ∃ lower upper, m.segments = lower ++ upper ∧
    result.2.segments = lower ++ ⟨c.bottom, c.top, .readWrite, 0, "[stack]"⟩ :: upper
  /-- It is filled with zeros, and the cells of other segments stay. -/
  cells : ∀ s, result.1 = .ok s → ∀ x, result.2.view? x =
    if c.bottom.toNat ≤ x ∧ x < c.top.toNat then some (0, .readWrite) else m.view? x
  window : result.2.window = m.window
  wellFormed : result.2.table.WellFormed
  /-- Nothing changes if it fails. -/
  refused : ∀ e, result.1 = .error e → result.2 = m

variable {m : Memory}

/-- Where there is nothing to copy, a string stays. -/
theorem copySlice_empty (bs : ByteArray) : ByteArray.empty.copySlice 0 bs 0 ByteArray.empty.size = bs := by
  refine byteList_injective ?_
  rw [byteList_copySlice]
  simp [byteList]

/-- No segment is too small for no data. -/
theorem not_size_lt_empty (s : Segment) : ¬ s.size < ByteArray.empty.size := by
  rw [ByteArray.size_empty]
  exact Nat.not_lt_zero _

/-- A stack is mapped if it is not empty, the host has storage, and its place is free. -/
theorem outcome_mapStackOn (host : Host) (c : StackConfig) (m : Memory) :
    outcome (mapStackOn host c) m =
      if c.top ≤ c.bottom then (.error (.badRange c.bottom c.top), m)
      else if host.affords (c.top - c.bottom) = false then (.error (.noSpace (c.top - c.bottom)), m)
      else if m.table.overlaps c.bottom c.top then (.error (.overlap c.bottom c.top), m)
      else
        (.ok (Cpu.initial.setGpr .rsp (c.address - 16)),
          ⟨m.window, m.table.insert
            ⟨⟨c.bottom, c.top, .readWrite, 0, "[stack]"⟩, zeros (c.top - c.bottom).toNat⟩⟩) := by
  have hmap := outcome_mapOn host ⟨c.bottom, c.top, .readWrite, 0, "[stack]"⟩ ByteArray.empty m
  simp only [copySlice_empty, not_size_lt_empty, if_false] at hmap
  unfold mapStackOn
  by_cases hempty : c.top ≤ c.bottom
  · rw [if_pos hempty, if_pos hempty]
    rfl
  · rw [if_neg hempty] at hmap
    rw [if_neg hempty, if_neg hempty]
    simp only [outcome_bind, hmap]
    split_ifs <;> rfl

/-- **One more segment.** Where it meets no other, a segment that is filled with zeros joins the others. -/
theorem insert_zeros (h : m.table.WellFormed) {start stop : UInt64} (p : Permissions) (name : String)
    (hlt : start < stop) (hfree : ∀ r ∈ m.segments, r.stop.toNat ≤ start.toNat ∨ stop.toNat ≤ r.start.toNat) :
    let m' : Memory := ⟨m.window, m.table.insert ⟨⟨start, stop, p, 0, name⟩, zeros (stop - start).toNat⟩⟩
    m'.table.WellFormed ∧
      (∃ lower upper, m.segments = lower ++ upper ∧ m'.segments = lower ++ ⟨start, stop, p, 0, name⟩ :: upper) ∧
      ∀ x, m'.view? x = if start.toNat ≤ x ∧ x < stop.toNat then some (0, p) else m.view? x := by
  intro m'
  have hlength : (stop - start).toNat = stop.toNat - start.toNat :=
    UInt64.toNat_sub_of_le _ _ (UInt64.le_of_lt hlt)
  have hvalid : (⟨⟨start, stop, p, 0, name⟩, zeros (stop - start).toNat⟩ : Mapping).Valid :=
    ⟨UInt64.lt_iff_toNat_lt.mp hlt, (size_zeros _).trans hlength⟩
  have hmappings : ∀ x ∈ m.table, x.stop ≤ start.toNat ∨ stop.toNat ≤ x.start := List.forall_mem_map.mp hfree
  refine ⟨h.insert hvalid hmappings, ?_, fun x => ?_⟩
  · obtain ⟨lower, upper, htable, hinsert⟩ := h.exists_insert hvalid hmappings
    refine ⟨lower.map Mapping.segment, upper.map Mapping.segment, ?_, ?_⟩
    · rw [segments, htable, List.map_append]
    · have hlonger : m'.table = lower ++ _ :: upper := hinsert
      rw [segments, hlonger, List.map_append, List.map_cons]
  -- an address is either in the new mapping or sees the old table
  · show (m.table.insert _).view? x = _
    rw [h.view?_insert hvalid hmappings]
    by_cases hx : start.toNat ≤ x ∧ x < stop.toNat
    · rw [if_pos hx]
      exact (if_pos hx).trans (cell?_zeros hlength hx)
    · rw [if_neg hx]
      exact if_neg hx

/-- A stack that is refused changes nothing. -/
theorem mapsStack_of_refused (h : m.table.WellFormed) {host : Host} {c : StackConfig} (e : MemoryError)
    (hno : ¬ (c.bottom < c.top ∧ host.affords (c.top - c.bottom) = true ∧
      ∀ r ∈ m.segments, r.stop.toNat ≤ c.bottom.toNat ∨ c.top.toNat ≤ r.start.toNat)) :
    m.MapsStack host c (.error e, m) := by
  have hfails : ∀ s : Cpu, (Except.error e : Except MemoryError Cpu) ≠ .ok s := fun _ hs => by cases hs
  constructor
  case isOk_iff => exact iff_of_false (fun hok => hok.elim hfails) hno
  case registers => exact fun s hs => absurd hs (hfails s)
  case segments => exact fun s hs => absurd hs (hfails s)
  case cells => exact fun s hs => absurd hs (hfails s)
  case window => rfl
  case wellFormed => exact h
  case refused => exact fun _ _ => rfl

/-- **Mapping a stack.** One segment is added, or nothing changes. -/
theorem mapsStack (h : m.table.WellFormed) (host : Host) (c : StackConfig) :
    m.MapsStack host c (outcome (mapStackOn host c) m) := by
  -- the test of the table is on mappings, the condition on their segments
  have hmappings : (∀ r ∈ m.segments, r.stop.toNat ≤ c.bottom.toNat ∨ c.top.toNat ≤ r.start.toNat) ↔
      ∀ x ∈ m.table, x.stop ≤ c.bottom.toNat ∨ c.top.toNat ≤ x.start := List.forall_mem_map
  have hoverlaps : m.table.overlaps c.bottom c.top = false ↔
      ∀ r ∈ m.segments, r.stop.toNat ≤ c.bottom.toNat ∨ c.top.toNat ≤ r.start.toNat :=
    h.overlaps_eq_false_iff.trans hmappings.symm
  rw [outcome_mapStackOn]
  -- one case for each obstacle, in the order in which the machine looks for them
  by_cases hempty : c.top ≤ c.bottom
  · rw [if_pos hempty]
    exact mapsStack_of_refused h _ fun hok => absurd hok.1 (UInt64.not_lt.mpr hempty)
  rw [if_neg hempty]
  by_cases hafford : host.affords (c.top - c.bottom) = false
  · rw [if_pos hafford]
    exact mapsStack_of_refused h _ fun hok => Bool.eq_false_iff.mp hafford hok.2.1
  rw [if_neg hafford]
  by_cases hover : m.table.overlaps c.bottom c.top = true
  · rw [if_pos hover]
    refine mapsStack_of_refused h _ fun hok => ?_
    have hfree : m.table.overlaps c.bottom c.top = false := hoverlaps.mpr hok.2.2
    exact Bool.false_ne_true (hfree.symm.trans hover)
  rw [if_neg hover]
  have hsegments := hoverlaps.mp (Bool.eq_false_iff.mpr hover)
  have hlt : c.bottom < c.top := UInt64.not_le.mp hempty
  obtain ⟨hwf, hadded, hcells⟩ := insert_zeros h .readWrite "[stack]" hlt hsegments
  constructor
  case isOk_iff => exact ⟨fun _ => ⟨hlt, by simpa using hafford, hsegments⟩, fun _ => ⟨_, rfl⟩⟩
  case registers => exact fun s hs => (Except.ok.inj hs).symm
  case segments => exact fun _ _ => hadded
  case cells => exact fun _ _ => hcells
  case window => rfl
  case wellFormed => exact hwf
  case refused => exact nofun

/-! ### Pushing -/

section
variable {host : Host} {c : StackConfig} {s : Cpu} {m' : Memory}

/-- Where rounding allows it, what was asked for may be used below the stack pointer. -/
theorem MapsStack.stackPermits (h : m.MapsStack host c (.ok s, m')) (hfits : c.Fits) {access : Access} {n : Nat}
    (haccess : Permissions.readWrite.allows access = true) (hn : n + 16 ≤ min c.address.toNat c.size.toNat) :
    (⟨s, m'⟩ : Machine Memory).StackPermits access n := by
  have hrsp : (s.gpr .rsp).toNat = c.address.toNat - 16 := by
    rw [h.registers s rfl, Cpu.gpr_setGpr_self]
    exact Machine.toNat_sub_ofNat (show 16 ≤ c.address.toNat by omega)
  have hcovers := (StackConfig.covers_iff (h.isOk_iff.mp ⟨s, rfl⟩).1).mpr hfits
  refine ⟨show n ≤ (s.gpr .rsp).toNat by omega, fun x hax hx => ⟨(0, .readWrite), ?_, haccess⟩⟩
  replace hax : (s.gpr .rsp).toNat - n ≤ x := hax
  replace hx : x < (s.gpr .rsp).toNat - n + n := hx
  exact (h.cells s rfl x).trans (if_pos (hcovers x ⟨by omega, by omega⟩))

/-- **New stacks.** Whatever the address space and the host, mapping a stack adds one segment, named as the stack,
    that may be read and written, and the stack pointer is 16 bytes below the address that was asked for; or it fails
    and changes nothing.  The bytes below that address that were asked for are all in the segment exactly if the
    address is not above the last page boundary and is rounded up by no more than the size is, unless the stack begins
    at zero, so always for an address on a page boundary.  Then pushes succeed as far as these bytes go. -/
theorem newStack_covers_iff (hm : m.Reachable) (host : Host) (c : StackConfig) :
    m.MapsStack host c (outcome (mapStackOn host c) m) ∧
    (∀ s m', outcome (mapStackOn host c) m = (.ok s, m') →
      ((∀ x, c.Promises x → c.bottom.toNat ≤ x ∧ x < c.top.toNat) ↔ c.Fits) ∧
      (c.Fits → ∀ pushes : List Push, Push.total pushes + 16 ≤ min c.address.toNat c.size.toNat →
        Push.Yield pushes ⟨s, m'⟩ → ∃ m₁, Exec.Executes (pushes.map (·.instruction)) ⟨s, m'⟩ m₁ ∧
          (⟨s, m'⟩ : Machine Memory).Pushed m₁ (Push.laid pushes))) ∧
    (4096 ∣ c.address.toNat → c.Fits) := by
  have hmaps := mapsStack hm.wellFormed host c
  refine ⟨hmaps, fun s m' hok => ?_, StackConfig.fits_of_dvd⟩
  rw [hok] at hmaps
  refine ⟨StackConfig.covers_iff (hmaps.isOk_iff.mp ⟨s, rfl⟩).1, fun hfits pushes htotal hyield => ?_⟩
  exact Exec.exists_executes_pushes pushes hmaps.wellFormed (hmaps.stackPermits hfits rfl htotal) hyield

/-- A page that is asked for one byte above a page boundary lies above the boundary, but for that byte, and the stack
    pointer below.  One that ends on the boundary takes the first push. -/
theorem newStack_covers_iff_page :
    let m : Memory := .empty {}
    let above : StackConfig := ⟨0x10001, 0x1000⟩
    let aligned : StackConfig := ⟨0x10000, 0x1000⟩
    let push : Push := ⟨⟨0, .ofBytes [0x50], .push (.reg (.low .rax .w64)) .w64⟩, _, _, 0, rfl⟩
    m.Reachable ∧ 4096 ∣ aligned.address.toNat ∧ ¬ above.Fits ∧
    (∃ s m', outcome (mapStackOn .ample above) m = (.ok s, m') ∧ s.gpr .rsp = 0xfff1 ∧
      m'.segments = [⟨0x10000, 0x11000, .readWrite, 0, "[stack]"⟩] ∧
      ∀ x, 0xf001 ≤ x → x < 0x10000 → above.Promises x ∧ m'.view? x = none) ∧
    ∃ s m' m₁, outcome (mapStackOn .ample aligned) m = (.ok s, m') ∧
      Exec.Executes [push.instruction] ⟨s, m'⟩ m₁ ∧ m₁.cpu.gpr .rsp = 0xffe8 := by
  -- it is evaluated before the configuration gets a name, so that `omega` sees numbers
  have hbottom : (⟨0x10001, 0x1000⟩ : StackConfig).bottom.toNat = 0x10000 := by decide +kernel
  intro m above aligned push
  replace hbottom : above.bottom.toNat = 0x10000 := hbottom
  have hm : m.Reachable := ⟨{}, [], rfl⟩
  have hboundary : 4096 ∣ aligned.address.toNat := by decide +kernel
  have hpromises : ∀ x, 0xf001 ≤ x → x < 0x10000 → above.Promises x := by
    intro x hlow hhigh
    have haddress : above.address.toNat = 0x10001 := rfl
    have hsize : above.size.toNat = 0x1000 := rfl
    exact ⟨by omega, by omega⟩
  -- both configurations are settled by the theorem; what is left is to find their first bytes
  obtain ⟨habove, hcovers, -⟩ := newStack_covers_iff hm .ample above
  obtain ⟨haligned, hpushes, hfits⟩ := newStack_covers_iff hm .ample aligned
  obtain ⟨⟨r, m'⟩, hr⟩ : ∃ p, outcome (mapStackOn .ample above) m = p := ⟨_, rfl⟩
  obtain ⟨⟨q, m''⟩, hq⟩ : ∃ p, outcome (mapStackOn .ample aligned) m = p := ⟨_, rfl⟩
  rw [hr] at habove
  rw [hq] at haligned
  obtain ⟨s, rfl⟩ := habove.isOk_iff.mpr
    ⟨by decide +kernel, by decide +kernel, fun r hr => absurd hr List.not_mem_nil⟩
  obtain ⟨t, rfl⟩ := haligned.isOk_iff.mpr
    ⟨by decide +kernel, by decide +kernel, fun r hr => absurd hr List.not_mem_nil⟩
  have hnot : ¬ above.Fits := by
    intro hall
    have hlow := ((hcovers s m' hr).1.mpr hall 0xf001 (hpromises _ (Nat.le_refl _) (by omega))).1
    omega
  refine ⟨hm, hboundary, hnot, ⟨s, m', hr, ?_, ?_, fun x hlow hhigh => ⟨hpromises x hlow hhigh, ?_⟩⟩, ?_⟩
  · rw [habove.registers s rfl]
    decide +kernel
  · obtain ⟨lower, upper, hnone, hsegments⟩ := habove.segments s rfl
    obtain ⟨rfl, rfl⟩ := List.append_eq_nil_iff.mp hnone.symm
    rw [hsegments]
    decide +kernel
  · rw [habove.cells s rfl, if_neg (by omega)]
    rfl
  -- the push reads a register, so it finds its number on any machine
  · have hyield : Push.Yield [push] ⟨t, m''⟩ := by
      refine ⟨?_, trivial⟩
      have hzero : (Cpu.initial.setGpr .rsp (aligned.address - 16)).readReg (.low .rax .w64) = 0 := by
        decide +kernel
      rw [haligned.registers t rfl]
      exact congrArg Except.ok hzero
    obtain ⟨m₁, hexecutes, hpushed⟩ := (hpushes t m'' hq).2 (hfits hboundary) [push] (by decide +kernel) hyield
    refine ⟨t, m'', m₁, hq, hexecutes, ?_⟩
    have hrsp : t.gpr .rsp = 0xfff0 := by
      rw [haligned.registers t rfl]
      decide +kernel
    rw [hpushed.rsp]
    show t.gpr .rsp - 8 = 0xffe8
    rw [hrsp]
    rfl

end

end Memory

end Amd64
