import Amd64.Proofs.Memory.Calls
import Amd64.Proofs.Memory.WellFormed

namespace Amd64

/-!
# Tables of reachable address spaces

* `Memory.wellFormed_after` — every call keeps the table well formed;
* `Memory.Reachable.wellFormed` — hence all reachable address spaces have well-formed tables;
* `Memory.table_afterCalls` — what this says about the mappings of a table.
-/

namespace Memory

variable {m : Memory}

/-! ### One call -/

/-- A segment in a free place of the window, with zeros as its bytes. -/
theorem valid_allocated {size len : UInt64} {start limit : Nat} (permissions : Permissions)
    (name : String) (hsize : size ≠ 0) (hlen : Page.ceil? size = some len)
    (hfit : start + len.toNat ≤ limit) (hlimit : limit < UInt64.size) :
    let segment : Segment := ⟨UInt64.ofNat start, UInt64.ofNat start + len, permissions, 0, name⟩
    let x : Mapping := ⟨segment, zeros len.toNat⟩
    x.start = start ∧ x.stop = start + len.toNat ∧ x.Valid := by
  intro segment x
  have hword : UInt64.size = 2 ^ 64 := rfl
  have hstart : x.start = start := by
    show (UInt64.ofNat start).toNat = start
    rw [UInt64.toNat_ofNat']
    exact Nat.mod_eq_of_lt (by omega)
  have hstop : x.stop = start + len.toNat := by
    show (UInt64.ofNat start + len).toNat = start + len.toNat
    rw [UInt64.toNat_add, show (UInt64.ofNat start).toNat = start from hstart]
    exact Nat.mod_eq_of_lt (by omega)
  have hpos : 0 < size.toNat := Nat.pos_of_ne_zero fun h => hsize (UInt64.toNat.inj h)
  obtain ⟨_, hround⟩ := Page.ceil?_eq_some_iff.mp hlen
  refine ⟨hstart, hstop, ⟨by omega, ?_⟩⟩
  rw [hstart, hstop, show x.bytes.size = len.toNat from size_zeros _]
  omega

/-- A segment of the caller's choice, whose bytes begin with the given ones. -/
theorem valid_mapped {segment : Segment} {data : ByteArray} (hempty : ¬ segment.stop ≤ segment.start)
    (hlong : ¬ segment.size < data.size) :
    (⟨segment, data.copySlice 0 (zeros (segment.stop - segment.start).toNat) 0 data.size⟩ :
      Mapping).Valid := by
  have hlt : segment.start.toNat < segment.stop.toNat :=
    Nat.not_le.mp fun h => hempty (UInt64.le_iff_toNat_le.mpr h)
  have hsub : (segment.stop - segment.start).toNat = segment.stop.toNat - segment.start.toNat :=
    UInt64.toNat_sub_of_le _ _ (UInt64.le_iff_toNat_le.mpr (Nat.le_of_lt hlt))
  refine ⟨hlt, ?_⟩
  show (data.copySlice 0 (zeros (segment.stop - segment.start).toNat) 0 data.size).size
    = segment.stop.toNat - segment.start.toNat
  rw [← length_byteList, byteList_copySlice]
  simp only [List.length_append, List.length_take, List.length_drop, length_byteList, size_zeros,
    hsub]
  simp only [Segment.size] at hlong
  omega

/-- A write keeps a table well formed. -/
theorem wellFormed_store (h : m.table.WellFormed) (enforce : Bool) (a : UInt64) (data : ByteArray) :
    (outcome (store enforce a data) m).2.table.WellFormed := by
  rw [outcome_store]
  split
  · exact h.scatter data a.toNat 0
  · exact h

/-- **One call.** Every call keeps the table well formed, whether it succeeds or fails. -/
theorem wellFormed_after (h : m.table.WellFormed) (c : MemoryCall) : (c.after m).table.WellFormed := by
  cases c with
  | allocate size name permissions =>
    simp only [MemoryCall.after, MemoryCall.act, outcome_discard, Memory.allocate, outcome_allocateOn]
    by_cases hsize : size = 0
    · rw [if_pos hsize]
      exact h
    rw [if_neg hsize]
    split
    · exact h
    · next len hlen =>
      split
      · exact h
      · next start hfit =>
        split
        · -- the place that was found is free and ends within the window
          obtain ⟨_, hle, hfree⟩ := h.firstFit?_free hfit
          obtain ⟨hstart, hstop, hv⟩ :=
            valid_allocated permissions name hsize hlen hle (UInt64.toNat_lt_size _)
          refine h.insert hv fun n hn => ?_
          rw [hstart, hstop]
          exact hfree n hn
        · exact h
  | map segment data =>
    simp only [MemoryCall.after, MemoryCall.act, Memory.map, outcome_mapOn]
    split
    · exact h
    · next hempty =>
      split
      · exact h
      · next hlong =>
        split
        · exact h
        · split
          · exact h
          · next hover =>
            -- the neighbour alone was looked at, and that suffices in a well-formed table
            have hfree := h.overlaps_eq_false_iff.mp (Bool.eq_false_iff.mpr hover)
            exact h.insert (valid_mapped hempty hlong) hfree
  | unmap a =>
    simp only [MemoryCall.after, MemoryCall.act, outcome_discard, outcome_unmap]
    split
    · exact h
    · split
      · exact h
      · exact h.erase a
  | protect a len permissions =>
    simp only [MemoryCall.after, MemoryCall.act, outcome_protect]
    split
    · exact h
    · split
      · exact h
      · next stop _ =>
        split
        · exact h
        · -- the table is divided at both ends before permissions change
          exact ((h.splitAt _).splitAt stop).setPermissions _ stop permissions
  | writeBytes a data => exact wellFormed_store h true a data
  | writeWord w a v => exact wellFormed_store h true a _
  | writeXmm a v => exact wellFormed_store h true a _
  | poke a data => exact wellFormed_store h false a data

/-! ### All calls -/

/-- **Reachable tables.** The table of a reachable address space is well formed. -/
theorem Reachable.wellFormed (h : m.Reachable) : m.table.WellFormed :=
  h.induction (P := fun m => m.table.WellFormed) (fun _ => Table.wellFormed_nil)
    fun c _ hm => wellFormed_after hm c

/-- **Tables after calls.** Whatever calls are made on an address space without segments: each mapping
    of the table that they leave is found under its start, holds an address, has one byte for each
    address and never the last address of all, and the mappings stand in the order of their starts
    with no address in two of them. -/
theorem table_afterCalls (window : Window) (calls : List MemoryCall) :
    (∀ x ∈ ((empty window).afterCalls calls).table,
      ((empty window).afterCalls calls).table.find? x.segment.start = some x ∧
        x.segment.start < x.segment.stop ∧
        x.bytes.size = x.segment.stop.toNat - x.segment.start.toNat ∧
        x.segment.contains 0xffffffffffffffff = false) ∧
    ((empty window).afterCalls calls).table.Pairwise fun x y =>
      x.segment.start < y.segment.start ∧
        ∀ a, ¬ (x.segment.contains a = true ∧ y.segment.contains a = true) := by
  have h : ((empty window).afterCalls calls).table.WellFormed :=
    Reachable.wellFormed ⟨window, calls, rfl⟩
  refine ⟨fun x hx => ?_, h.ordered.imp_of_mem fun {x y} hx hy hxy => ?_⟩
  · have hv := h.valid x hx
    have hlt : x.segment.start.toNat < x.segment.stop.toNat := hv.start_lt_stop
    refine ⟨h.find?_eq_some_iff.mpr ⟨hx, ?_⟩, UInt64.lt_iff_toNat_lt.mpr hlt, hv.size_bytes, ?_⟩
    · exact (Segment.contains_iff _ _).mpr ⟨Nat.le_refl _, hlt⟩
    · rw [Bool.eq_false_iff, Ne, Segment.contains_iff]
      -- the end of a segment is an address and lies above the segment
      rintro ⟨_, hlast⟩
      have hstop := x.segment.stop.toNat_lt_size
      have htop : (0xffffffffffffffff : UInt64).toNat = UInt64.size - 1 := rfl
      omega
  · -- an address of both would lie below the end of `x`, hence below the start of `y`
    have hxv : x.segment.start.toNat < x.segment.stop.toNat := (h.valid x hx).start_lt_stop
    have hxy' : x.segment.stop.toNat ≤ y.segment.start.toNat := hxy
    refine ⟨UInt64.lt_iff_toNat_lt.mpr (by omega), ?_⟩
    rintro a ⟨hxa, hya⟩
    have hxa' := (Segment.contains_iff _ _).mp hxa
    have hya' := (Segment.contains_iff _ _).mp hya
    omega

end Memory

end Amd64
