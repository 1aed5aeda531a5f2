import Amd64.Proofs.Memory.Ranges
import Amd64.Proofs.Semantics.Routines

namespace Amd64

/-!
# Routines that copy and fill

The routines `memcpy` and `memset` transfer their bytes in chunks, the lowest addresses first.

* `Machine.Moves`                 — what all chunks do, and `Machine.Moves.then` for one more in front of them;
* `Exec.outcome_fillBytes`, `Exec.outcome_copyBytes` — one chunk;
* `Exec.moves_fillBytes`, `Exec.moves_copyBytes` — by induction on the number of bytes;
* `Exec.CopiesForward`            — no chunk is laid over bytes that are read after it;
* `Machine.Transfers`, `Exec.bulk_routines` — steps that are such routines.
-/

/-! ### All chunks -/

/-- What moving `n` bytes to the addresses from `a` on does. It succeeds if and only if `accessible`, and what it
    leaves then meets `leaves`. -/
structure Machine.Moves (m : Machine Memory) (a n : Nat) (accessible : Prop) (leaves : Memory → Prop)
    (r : Except Fault Unit × Machine Memory) : Prop where
  isOk_iff : r.1 = .ok () ↔ accessible
  left : r.1 = .ok () → leaves r.2.bus
  /-- It fails with an error of memory. -/
  fault : ∀ f, r.1 = .error f → ∃ e, f = .memory e
  /-- In any case the registers stay, and so does all memory but the bytes at these addresses. -/
  cpu : r.2.cpu = m.cpu
  within : m.bus.ChangedWithin r.2.bus a n

namespace Machine

variable {m : Machine Memory} {a n : Nat} {accessible accessible' : Prop} {leaves leaves' : Memory → Prop}

/-- No bytes are moved where none have to be. -/
theorem moves_nothing (haccessible : accessible) (hleaves : leaves m.bus) :
    m.Moves a n accessible leaves (.ok (), m) where
  isOk_iff := iff_of_true rfl haccessible
  left _ := hleaves
  fault _ hf := nomatch hf
  cpu := rfl
  within := Memory.changedWithin_refl _ _ _

/-- Nothing is moved if some address does not permit it. -/
theorem moves_refused (haccessible : ¬ accessible) (e : MemoryError) :
    m.Moves a n accessible leaves (.error (.memory e), m) where
  isOk_iff := iff_of_false (fun hok => nomatch hok) haccessible
  left hok := nomatch hok
  fault _ hf := ⟨e, (Except.error.inj hf).symm⟩
  cpu := rfl
  within := Memory.changedWithin_refl _ _ _

/-- **One more chunk.** Bytes are laid over the front of a range, then the rest is moved. -/
theorem Moves.then {b : Memory} {k : Nat} {xs : List UInt8} {r : Except Fault Unit × Machine Memory}
    (hrest : Moves ⟨m.cpu, b⟩ (a + k) (n - k) accessible' leaves' r) (hfirst : m.bus.Overlaid b a xs)
    (hlength : xs.length = k) (hk : k ≤ n) (haccessible : accessible' ↔ accessible)
    (hleaves : ∀ b', leaves' b' → leaves b') : m.Moves a n accessible leaves r := by
  subst hlength
  exact ⟨hrest.isOk_iff.trans haccessible, fun hok => hleaves _ (hrest.left hok), hrest.fault, hrest.cpu,
    hfirst.then hk hrest.within⟩

end Machine

namespace Exec

/-! ### One chunk -/

/-- Number of bytes of the next chunk of `n`. -/
def chunk (n : Nat) : Nat :=
  min n chunkSize

/-- A chunk is not longer than what is left. -/
theorem chunk_le (n : Nat) : chunk n ≤ n :=
  Nat.min_le_left _ _

/-- There is a chunk as long as something is left. -/
theorem chunk_pos {n : Nat} (hn : n ≠ 0) : 0 < chunk n :=
  Nat.lt_min.mpr ⟨Nat.pos_of_ne_zero hn, by decide⟩

section
variable {σ : Type} [Bus σ] (dst src : UInt64) (x : UInt8)

/-- Of no bytes there is nothing to do. -/
theorem fillBytes_zero : (fillBytes dst x 0 : Exec σ Unit) = pure () := by
  rw [fillBytes, if_pos rfl]

theorem copyBytes_zero : (copyBytes dst src 0 : Exec σ Unit) = pure () := by
  rw [copyBytes, if_pos rfl]

variable {n : Nat} (m : Machine Memory)

/-- **Filling.** A chunk is written, then the rest is filled. -/
theorem outcome_fillBytes (hn : n ≠ 0) :
    outcome (fillBytes dst x n) m =
      match outcome (Memory.store true dst (packed (List.replicate (chunk n) x))) m.bus with
      | (.ok _, b) => outcome (fillBytes (dst + UInt64.ofNat (chunk n)) x (n - chunk n)) ⟨m.cpu, b⟩
      | (.error e, b) => (.error (.memory e), ⟨m.cpu, b⟩) := by
  rw [fillBytes, if_neg hn]
  show outcome (access (Memory.writeBytes dst (packed (List.replicate (chunk n) x))) >>= fun _ =>
    fillBytes (dst + UInt64.ofNat (chunk n)) x (n - chunk n)) m = _
  rw [outcome_bind, outcome_access, Memory.writeBytes]
  rcases outcome (Memory.store true dst (packed (List.replicate (chunk n) x))) m.bus with ⟨_ | _, _⟩ <;> rfl

/-- **Copying.** A chunk is read and written, then the rest is copied. -/
theorem outcome_copyBytes (hn : n ≠ 0) :
    outcome (copyBytes dst src n) m =
      match m.bus.load true src (chunk n) with
      | .error e => (.error (.memory e), m)
      | .ok data =>
        match outcome (Memory.store true dst data) m.bus with
        | (.ok _, b) =>
          outcome (copyBytes (dst + UInt64.ofNat (chunk n)) (src + UInt64.ofNat (chunk n)) (n - chunk n)) ⟨m.cpu, b⟩
        | (.error e, b) => (.error (.memory e), ⟨m.cpu, b⟩) := by
  rw [copyBytes, if_neg hn]
  show outcome (access (Memory.ask fun b => b.readBytes src (chunk n)) >>= fun data =>
    access (Memory.writeBytes dst data) >>= fun _ => _) m = _
  rw [outcome_bind, outcome_access_ask, Memory.readBytes]
  cases m.bus.load true src (chunk n) with
  | error e => rfl
  | ok data =>
    simp only [Except.mapError, outcome_bind, outcome_access, Memory.writeBytes]
    rcases outcome (Memory.store true dst data) m.bus with ⟨_ | _, _⟩ <;> rfl

end

/-! ### Filling -/

section
variable {dst src : UInt64} {x : UInt8} {m : Machine Memory} {n : Nat}

/-- **Filling.** All chunks together fill the range. -/
theorem moves_fillBytes (h : m.bus.table.WellFormed) :
    m.Moves dst.toNat n (m.bus.AllPermit .write dst.toNat n)
      (fun b => m.bus.Overlaid b dst.toNat (List.replicate n x)) (outcome (fillBytes dst x n) m) := by
  -- on the number of bytes left: a chunk is never empty, so the rest is shorter
  induction n using Nat.strongRecOn generalizing dst m with
  | ind n ih =>
    by_cases hn : n = 0
    · subst hn
      rw [fillBytes_zero]
      exact Machine.moves_nothing (m.bus.allPermit_zero _ _) (m.bus.overlaid_nil _)
    · have hle := chunk_le n
      have hpos := chunk_pos hn
      have hlength : (List.replicate (chunk n) x).length = chunk n := List.length_replicate
      have hall : List.replicate n x = List.replicate (chunk n) x ++ List.replicate (n - chunk n) x := by
        rw [List.replicate_append_replicate, Nat.add_sub_of_le hle]
      rw [outcome_fillBytes dst x m hn, Memory.allPermit_iff_parts hle]
      obtain ⟨b, hstore, hwf, hpermit, hfirst⟩ | ⟨e, hstore, hrefused⟩ :=
        Memory.store_cases h dst _ (byteList_packed (List.replicate (chunk n) x))
      · rw [hlength] at hpermit
        have hrest := @ih (n - chunk n) (by omega) (dst + UInt64.ofNat (chunk n)) ⟨m.cpu, b⟩ hwf
        rw [hpermit.toNat_add hpos] at hrest
        rw [hstore]
        -- the rest is filled in the memory behind the first chunk, whose permissions are the same
        refine hrest.then hfirst hlength hle ?_ fun b' hb' => ?_
        · rw [hfirst.allPermit_iff]
          exact (and_iff_right hpermit).symm
        · rw [hall]
          exact hfirst.append (hlength.symm ▸ hb')
      · rw [hlength] at hrefused
        rw [hstore]
        exact Machine.moves_refused (fun hpermit => hrefused hpermit.1) e

/-! ### Copying -/

/-- Bytes that are copied from `s` to `d`, `n` of them, are read before another chunk is laid over them: the ranges
    are disjoint, or the bytes move down, or there is one chunk only. -/
def CopiesForward (d s n : Nat) : Prop :=
  (d + n ≤ s ∨ s + n ≤ d) ∨ d ≤ s ∨ n ≤ 4096

section
variable {d s : Nat} (h : CopiesForward d s n)
include h

/-- What is left behind the first chunk may be copied in the same way. -/
theorem CopiesForward.rest : CopiesForward (d + chunk n) (s + chunk n) (n - chunk n) := by
  have hle := chunk_le n
  rcases h with (habove | hbelow) | hdown | hone
  · exact Or.inl (Or.inl (by omega))
  · exact Or.inl (Or.inr (by omega))
  · exact Or.inr (Or.inl (by omega))
  · exact Or.inr (Or.inr (by omega))

/-- The first chunk does not touch what is read after it. -/
theorem CopiesForward.unread {x : Nat} (hsx : s + chunk n ≤ x) (hx : x < s + chunk n + (n - chunk n)) :
    x < d ∨ d + chunk n ≤ x := by
  have hle := chunk_le n
  rcases h with (habove | hbelow) | hdown | hone
  · omega
  · omega
  · omega
  · -- there is nothing after it
    have hwhole : chunk n = n := Nat.min_eq_left hone
    omega

end

/-- **Copying.** All chunks together copy the range as it was at first. -/
theorem moves_copyBytes (h : m.bus.table.WellFormed) :
    m.Moves dst.toNat n (m.bus.AllPermit .write dst.toNat n ∧ m.bus.AllPermit .read src.toNat n)
      (fun b => CopiesForward dst.toNat src.toNat n →
        ∃ bs, m.bus.HoldsBytes src.toNat n bs ∧ m.bus.Overlaid b dst.toNat bs)
      (outcome (copyBytes dst src n) m) := by
  -- by induction on the number of bytes, chunk by chunk
  induction n using Nat.strongRecOn generalizing dst src m with
  | ind n ih =>
    by_cases hn : n = 0
    · subst hn
      rw [copyBytes_zero]
      exact Machine.moves_nothing ⟨m.bus.allPermit_zero _ _, m.bus.allPermit_zero _ _⟩
        fun _ => ⟨[], rfl, m.bus.overlaid_nil _⟩
    · have hle := chunk_le n
      have hpos := chunk_pos hn
      rw [outcome_copyBytes dst src m hn, Memory.allPermit_iff_parts (a := dst.toNat) hle,
        Memory.allPermit_iff_parts (a := src.toNat) hle]
      obtain ⟨data, hload, hreadable, hbytes⟩ | ⟨e, hload, hrefused⟩ := Memory.load_cases h src (chunk n)
      · have hlength := hbytes.length
        rw [hload]
        obtain ⟨b, hstore, hwf, hwritable, hfirst⟩ | ⟨e, hstore, hrefused⟩ := Memory.store_cases h dst data rfl
        · rw [hlength] at hwritable
          -- the rest is moved from behind the first chunk, in the memory that this has left
          have hrest := @ih (n - chunk n) (by omega) (dst + UInt64.ofNat (chunk n)) (src + UInt64.ofNat (chunk n))
            ⟨m.cpu, b⟩ hwf
          rw [hwritable.toNat_add hpos, hreadable.toNat_add hpos] at hrest
          simp only [hstore]
          refine hrest.then hfirst hlength hle ?_ fun b' hb' hforward => ?_
          · rw [hfirst.allPermit_iff, hfirst.allPermit_iff, and_iff_right hwritable, and_iff_right hreadable]
          · obtain ⟨bs, hbs, hoverlaid⟩ := hb' hforward.rest
            -- the first chunk was not laid over what the rest still has to read
            have hunread := hfirst.holdsBytes hbs fun x hsx hx => hlength.symm ▸ hforward.unread hsx hx
            exact ⟨byteList data ++ bs, hbytes.append hunread hle, hfirst.append (hlength.symm ▸ hoverlaid)⟩
        · rw [hlength] at hrefused
          simp only [hstore]
          exact Machine.moves_refused (fun hall => hrefused hall.1.1) e
      · rw [hload]
        exact Machine.moves_refused (fun hall => hrefused hall.2.1) e

end

end Exec

/-! ### Steps -/

/-- A step from `m` moves `rdx` bytes to the addresses from `rdi` on and returns `rdi` to `target`. It needs
    `accessible`, and what it leaves meets `leaves`. -/
structure Machine.Transfers (m : Machine Memory) (table : IntrinsicTable) (target : UInt64) (accessible : Prop)
    (leaves : Memory → Prop) : Prop where
  returns : accessible →
    ∃ b, outcome (Exec.step table) m = (.ok .proceed, ⟨m.cpu.returned (m.cpu.gpr .rdi) target, b⟩) ∧ leaves b ∧
      m.bus.ChangedWithin b (m.cpu.gpr .rdi).toNat (m.cpu.gpr .rdx).toNat
  /-- If it fails, some of the bytes may have been moved. -/
  fails : ¬ accessible →
    ∃ e b, outcome (Exec.step table) m = (.error (.memory e), ⟨m.cpu, b⟩) ∧
      m.bus.ChangedWithin b (m.cpu.gpr .rdi).toNat (m.cpu.gpr .rdx).toNat
  nothing : m.cpu.gpr .rdx = 0 →
    outcome (Exec.step table) m = (.ok .proceed, ⟨m.cpu.returned (m.cpu.gpr .rdi) target, m.bus⟩)

namespace Exec

variable {m : Machine Memory} {table : IntrinsicTable} {id : Intrinsic} {target : UInt64}

/-- Without bytes to move, routines do not use the bus. -/
theorem routine_of_count_eq_zero {σ : Type} [Bus σ] {s : Cpu} (hcount : s.gpr .rdx = 0) :
    (routine .memset s : Exec σ UInt64) = pure (s.gpr .rdi) ∧
      (routine .memcpy s : Exec σ UInt64) = pure (s.gpr .rdi) := by
  have hzero : (s.gpr .rdx).toNat = 0 := congrArg UInt64.toNat hcount
  simp only [routine, hzero, fillBytes_zero, copyBytes_zero, pure_bind, and_self]

/-- What a routine moves is what the call leaves. -/
theorem transfers_of_moves {work : Exec Memory Unit} {accessible : Prop} {leaves : Memory → Prop}
    (hcalls : m.Calls table id target)
    (hwork : routine id m.cpu = do
      work
      return m.cpu.gpr .rdi)
    (hnothing : m.cpu.gpr .rdx = 0 → (routine id m.cpu : Exec Memory UInt64) = pure (m.cpu.gpr .rdi))
    (hmoves : m.Moves (m.cpu.gpr .rdi).toNat (m.cpu.gpr .rdx).toNat accessible leaves (outcome work m)) :
    m.Transfers table target accessible leaves := by
  have hstep := outcome_step_routine hcalls
  rw [hwork, outcome_bind] at hstep
  generalize outcome work m = r at hmoves hstep
  -- the work touches memory only, so the return and the result read the registers of before
  obtain ⟨result, s, b⟩ := r
  have hcpu : s = m.cpu := hmoves.cpu
  subst hcpu
  refine ⟨fun haccessible => ?_, fun haccessible => ?_, fun hcount => ?_⟩
  · obtain rfl : result = .ok () := hmoves.isOk_iff.mpr haccessible
    exact ⟨b, hstep, hmoves.left rfl, hmoves.within⟩
  · cases result with
    | ok u => exact absurd (hmoves.isOk_iff.mp rfl) haccessible
    | error f =>
      obtain ⟨e, rfl⟩ := hmoves.fault f rfl
      exact ⟨e, b, hstep, hmoves.within⟩
  · rw [outcome_step_routine hcalls, hnothing hcount]
    rfl

/-- **Routines.** The routine `memset` fills the range at `rdi` if all of it may be written. The routine `memcpy`
    copies the range at `rsi` there if all of it may be read besides, and leaves the bytes that it held at first as
    far as no chunk is laid over bytes that are read later. Both return `rdi`. If they fail only bytes at `rdi`
    may be different. Without bytes to move nothing is accessed. -/
theorem bulk_routines (hm : m.bus.Reachable) :
    (m.Calls table .memset target →
      m.Transfers table target (m.bus.AllPermit .write (m.cpu.gpr .rdi).toNat (m.cpu.gpr .rdx).toNat)
        fun b => m.bus.Overlaid b (m.cpu.gpr .rdi).toNat
          (List.replicate (m.cpu.gpr .rdx).toNat (m.cpu.gpr .rsi).toUInt8)) ∧
    (m.Calls table .memcpy target →
      m.Transfers table target
        (m.bus.AllPermit .write (m.cpu.gpr .rdi).toNat (m.cpu.gpr .rdx).toNat ∧
          m.bus.AllPermit .read (m.cpu.gpr .rsi).toNat (m.cpu.gpr .rdx).toNat)
        fun b => CopiesForward (m.cpu.gpr .rdi).toNat (m.cpu.gpr .rsi).toNat (m.cpu.gpr .rdx).toNat →
          ∃ bs, m.bus.HoldsBytes (m.cpu.gpr .rsi).toNat (m.cpu.gpr .rdx).toNat bs ∧
            m.bus.Overlaid b (m.cpu.gpr .rdi).toNat bs) ∧
    ∀ (σ : Type) [Bus σ] (s : Cpu), s.gpr .rdx = 0 →
      (routine .memset s : Exec σ UInt64) = pure (s.gpr .rdi) ∧
        (routine .memcpy s : Exec σ UInt64) = pure (s.gpr .rdi) :=
  ⟨fun hcalls => transfers_of_moves hcalls rfl (fun hcount => (routine_of_count_eq_zero hcount).1)
      (moves_fillBytes hm.wellFormed),
    fun hcalls => transfers_of_moves hcalls rfl (fun hcount => (routine_of_count_eq_zero hcount).2)
      (moves_copyBytes hm.wellFormed),
    fun _ _ _ hcount => routine_of_count_eq_zero hcount⟩

/-- Four bytes are copied two bytes down, and four bytes two bytes up, over half of themselves, and four bytes are
    filled. -/
theorem bulk_routines_overlapping :
    let bus : Memory := (Memory.empty ⟨0x10000, 0x20000⟩).afterCalls
      [.map ⟨0x3000, 0x3008, .readWrite, 0, "stack"⟩ (packed [0x34, 0x12, 0, 0, 0, 0, 0, 0]),
        .map ⟨0x4000, 0x4006, .readWrite, 0, "data"⟩ (packed [1, 2, 3, 4, 5, 6])]
    let table := (IntrinsicTable.empty.register 0x1000 .memcpy).register 0x2000 .memset
    let m : UInt64 → UInt64 → UInt64 → Machine Memory := fun ip dst src =>
      ⟨((((Cpu.initial.setGpr .rdi dst).setGpr .rsi src).setGpr .rdx 4).setGpr .rsp 0x3000).setRip ip, bus⟩
    (∃ b, outcome (step table) (m 0x1000 0x4000 0x4002) =
        (.ok .proceed, ⟨(m 0x1000 0x4000 0x4002).cpu.returned 0x4000 0x1234, b⟩) ∧
      bus.Overlaid b 0x4000 [3, 4, 5, 6]) ∧
    (∃ b, outcome (step table) (m 0x1000 0x4002 0x4000) =
        (.ok .proceed, ⟨(m 0x1000 0x4002 0x4000).cpu.returned 0x4002 0x1234, b⟩) ∧
      bus.Overlaid b 0x4002 [1, 2, 3, 4]) ∧
    ∃ b, outcome (step table) (m 0x2000 0x4000 0x4002) =
        (.ok .proceed, ⟨(m 0x2000 0x4000 0x4002).cpu.returned 0x4000 0x1234, b⟩) ∧
      bus.Overlaid b 0x4000 [2, 2, 2, 2] := by
  intro bus table m
  have hreachable : ∀ ip dst src, (m ip dst src).bus.Reachable := fun _ _ _ => ⟨_, _, rfl⟩
  have hwf : bus.table.WellFormed := (hreachable 0 0 0).wellFormed
  have hall : ∀ k a, bus.accessError? k true a 4 = none → bus.AllPermit k a.toNat 4 := fun k a hcheck =>
    (Memory.accessError?_eq_none_iff hwf).mp hcheck
  have hlow := hall .write 0x4000 (by decide +kernel)
  have hbytes : ∀ (a : Nat) (cs : List UInt8), (List.range' a 4).map bus.byte? = cs.map some →
      ∀ {bs : List UInt8}, bus.HoldsBytes a 4 bs → bs = cs := fun _ _ hcs _ hheld =>
    (List.map_inj_right fun _ _ => Option.some.inj).mp (Eq.trans hheld hcs)
  refine ⟨?_, ?_, ?_⟩
  · have hcalls : (m 0x1000 0x4000 0x4002).Calls table .memcpy 0x1234 := ⟨by decide +kernel, by decide +kernel⟩
    obtain ⟨b, hstep, hcopied, -⟩ := ((bulk_routines (hreachable _ _ _)).2.1 hcalls).returns
      ⟨hlow, hall .read 0x4002 (by decide +kernel)⟩
    obtain ⟨bs, hheld, hoverlaid⟩ := hcopied (Or.inr (Or.inl (by decide)))
    obtain rfl := hbytes 0x4002 [3, 4, 5, 6] (by decide +kernel) hheld
    exact ⟨b, hstep, hoverlaid⟩
  · have hcalls : (m 0x1000 0x4002 0x4000).Calls table .memcpy 0x1234 := ⟨by decide +kernel, by decide +kernel⟩
    obtain ⟨b, hstep, hcopied, -⟩ := ((bulk_routines (hreachable _ _ _)).2.1 hcalls).returns
      ⟨hall .write 0x4002 (by decide +kernel), hall .read 0x4000 (by decide +kernel)⟩
    -- they move up, but all of them are in one chunk
    obtain ⟨bs, hheld, hoverlaid⟩ := hcopied (Or.inr (Or.inr (by decide)))
    obtain rfl := hbytes 0x4000 [1, 2, 3, 4] (by decide +kernel) hheld
    exact ⟨b, hstep, hoverlaid⟩
  · have hcalls : (m 0x2000 0x4000 0x4002).Calls table .memset 0x1234 := ⟨by decide +kernel, by decide +kernel⟩
    obtain ⟨b, hstep, hfilled, -⟩ := ((bulk_routines (hreachable _ _ _)).1 hcalls).returns hlow
    have hbyte : List.replicate ((m 0x2000 0x4000 0x4002).cpu.gpr .rdx).toNat
        ((m 0x2000 0x4000 0x4002).cpu.gpr .rsi).toUInt8 = [2, 2, 2, 2] := by decide +kernel
    rw [hbyte] at hfilled
    exact ⟨b, hstep, hfilled⟩

end Exec

end Amd64
