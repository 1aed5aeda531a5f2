import Amd64.Proofs.Trace.Replay

namespace Amd64

/-!
# Runs of bytes in a trace

A run of bytes that is transferred at once is kept as accesses of the sizes that a trace knows. They lie one behind
the other, transfer exactly these bytes, and could not be fewer.

* `MemoryEvent.Transfers`   — accesses that transfer a run of bytes;
* `MemoryEvent.transfers_pieces` — the pieces of the run do;
* `MemoryEvent.fewest`      — how many accesses a number of bytes takes;
* `MemoryEvent.fewest_sum_le`, `MemoryEvent.length_pieces` — no accesses are fewer, and the pieces are as many;
* `MemoryEvent.Traced`      — accesses that a trace keeps as they are;
* `Watched.logs_runs_exactly` — the accesses that are kept of a run of bytes.
-/

namespace MemoryEvent

/-! ### What the pieces transfer -/

/-- The bytes of the value. -/
def bytes (e : MemoryEvent) : List UInt8 :=
  LittleEndian.bytes e.size.toNat e.value.toNat

/-- Accesses one behind the other, the first of them at `a`. -/
def Contiguous : UInt64 → List MemoryEvent → Prop
  | _, [] => True
  | a, e :: es => e.address = a ∧ Contiguous (a + UInt64.ofNat e.size.toNat) es

/-- Accesses of the usual sizes that transfer the bytes `bs`, from `a` on. -/
structure Transfers (write : Bool) (a : UInt64) (bs : List UInt8) (es : List MemoryEvent) : Prop where
  sizes : ∀ e ∈ es, e.size.toNat ∈ MemoryEvent.sizes
  direction : ∀ e ∈ es, e.write = write
  contiguous : Contiguous a es
  contents : es.flatMap bytes = bs

variable {write : Bool} {a : UInt64} {xs ys : List UInt8} {es : List MemoryEvent}

/-- An event with few enough bytes has all of them. -/
theorem bytes_ofBytes (h : xs.length ≤ 16) : (ofBytes write a xs).bytes = xs := by
  rw [bytes, toNat_size_ofBytes write a h, toNat_value_ofBytes write a h, LittleEndian.bytes_value]

/-- One more access in front. -/
theorem Transfers.cons (hsize : xs.length ∈ MemoryEvent.sizes)
    (h : Transfers write (a + UInt64.ofNat xs.length) ys es) :
    Transfers write a (xs ++ ys) (ofBytes write a xs :: es) := by
  have hle := le_of_mem_sizes hsize
  have hlength := toNat_size_ofBytes write a hle
  refine ⟨fun e he => ?_, fun e he => ?_, ⟨rfl, ?_⟩, ?_⟩
  · obtain rfl | he := List.mem_cons.mp he
    · rwa [hlength]
    · exact h.sizes e he
  · obtain rfl | he := List.mem_cons.mp he
    · rfl
    · exact h.direction e he
  · rw [hlength]
    exact h.contiguous
  · rw [List.flatMap_cons, bytes_ofBytes hle, h.contents]

/-- The pieces of a transfer cover it without gaps. -/
theorem transfers_pieces (write : Bool) (a : UInt64) (bs : List UInt8) :
    Transfers write a bs (pieces write a bs) := by
  refine pieces_induction (motive := Transfers write) (fun a => ?_) (fun a xs ys es hsize ih => ?_) a bs
  · exact ⟨fun e he => absurd he List.not_mem_nil, fun e he => absurd he List.not_mem_nil, trivial, rfl⟩
  · exact ih.cons (hsize ▸ pieceSize_mem _)

/-! ### How many pieces there are -/

/-- The number of accesses of `1`, `2`, …, `2 ^ k` bytes that `n` bytes take: as many of `2 ^ k` bytes as there can
    be, and at most one of each smaller size. -/
def fewest : Nat → Nat → Nat
  | 0, n => n
  | k + 1, n => fewest k (n / 2) + n % 2

variable {j k n : Nat}

/-- An access less of the greatest size, or of one that is greater than all the others that are left. -/
theorem fewest_add_eq (hj : j ≤ k) (h : j = k ∨ n < 2 ^ j) : fewest k (2 ^ j + n) = fewest k n + 1 := by
  induction k generalizing j n with
  | zero =>
    obtain rfl := Nat.le_zero.mp hj
    exact Nat.add_comm 1 n
  | succ k ih =>
    cases j with
    | zero =>
      obtain rfl : n = 0 := by omega
      rfl
    | succ j =>
      have hhalf : (2 ^ (j + 1) + n) / 2 = 2 ^ j + n / 2 := by omega
      have hodd : (2 ^ (j + 1) + n) % 2 = n % 2 := by omega
      rw [fewest, fewest, hhalf, hodd, ih (Nat.le_of_succ_le_succ hj) (by omega), Nat.add_right_comm]

/-- No size spares more than one access. -/
theorem fewest_add_le (hj : j ≤ k) (n : Nat) : fewest k (2 ^ j + n) ≤ fewest k n + 1 := by
  -- on the bits of the remaining length
  induction k generalizing j n with
  | zero =>
    obtain rfl := Nat.le_zero.mp hj
    exact (Nat.add_comm 1 n).le
  | succ k ih =>
    cases j with
    | zero =>
      rw [fewest, fewest, pow_zero]
      obtain heven | hodd := Nat.mod_two_eq_zero_or_one n
      · rw [show (1 + n) / 2 = n / 2 by omega]
        omega
      · -- the access of one byte makes one of two bytes with the odd byte
        have hcarry := ih (Nat.zero_le k) (n / 2)
        rw [pow_zero] at hcarry
        rw [show (1 + n) / 2 = 1 + n / 2 by omega]
        omega
    | succ j =>
      have hhalf : (2 ^ (j + 1) + n) / 2 = 2 ^ j + n / 2 := by omega
      have hodd : (2 ^ (j + 1) + n) % 2 = n % 2 := by omega
      have hle := ih (Nat.le_of_succ_le_succ hj) (n / 2)
      rw [fewest, fewest, hhalf, hodd]
      omega

/-- The sizes of events are powers of two. -/
theorem mem_sizes_iff : n ∈ sizes ↔ ∃ j ≤ 4, n = 2 ^ j := by
  constructor
  · intro h
    simp only [sizes, List.mem_cons, List.not_mem_nil, or_false] at h
    obtain rfl | rfl | rfl | rfl | rfl := h
    · exact ⟨0, by decide, rfl⟩
    · exact ⟨1, by decide, rfl⟩
    · exact ⟨2, by decide, rfl⟩
    · exact ⟨3, by decide, rfl⟩
    · exact ⟨4, by decide, rfl⟩
  · rintro ⟨j, hj, rfl⟩
    have hpow : ∀ j ≤ 4, 2 ^ j ∈ sizes := by decide
    exact hpow j hj

/-- No greater size fits into the bytes that are left. -/
theorem le_pieceSize {size : Nat} (h : size ∈ sizes) (hle : size ≤ n) : size ≤ pieceSize n := by
  have hsize := le_of_mem_sizes h
  grind [pieceSize, sizes]

/-- **The fewest accesses.** No sizes with the same sum are fewer. -/
theorem fewest_sum_le {ns : List Nat} (h : ∀ n ∈ ns, n ∈ sizes) : fewest 4 ns.sum ≤ ns.length := by
  induction ns with
  | nil => rfl
  | cons n ns ih =>
    obtain ⟨hn, hns⟩ := List.forall_mem_cons.mp h
    obtain ⟨j, hj, rfl⟩ := mem_sizes_iff.mp hn
    rw [List.sum_cons, List.length_cons]
    exact (fewest_add_le hj ns.sum).trans (Nat.succ_le_succ (ih hns))

/-- There are as many pieces as are needed. -/
theorem length_pieces (write : Bool) (a : UInt64) (bs : List UInt8) :
    (pieces write a bs).length = fewest 4 bs.length := by
  refine pieces_induction (motive := fun _ bs es => es.length = fewest 4 bs.length)
    (fun a => rfl) (fun a xs ys es hsize ih => ?_) a bs
  obtain ⟨j, hj, hpow⟩ := mem_sizes_iff.mp (hsize ▸ pieceSize_mem _)
  have hgreatest : j = 4 ∨ ys.length < 2 ^ j := by
    by_contra hno
    have hnext : 2 ^ (j + 1) ∈ sizes := mem_sizes_iff.mpr ⟨j + 1, by omega, rfl⟩
    have hle := le_pieceSize hnext (show 2 ^ (j + 1) ≤ xs.length + ys.length by omega)
    rw [← hsize, hpow, pow_succ] at hle
    have hpos := Nat.two_pow_pos j
    omega
  rw [List.length_cons, List.length_append, ih, hpow, fewest_add_eq hj hgreatest]

/-! ### Pieces in a trace -/

/-- A trace keeps the access as it is: it can be written, and what is written is read as this access. -/
def Traced (e : MemoryEvent) : Prop :=
  ∃ frame, (∀ w, outcome (TraceWriter.write (.memoryEvent e)) w = (.ok (), TraceWriter.append frame w)) ∧
    ∀ rest, outcome nextRecord (frame ++ rest) = (.ok (some (.memoryEvent e)), rest)

/-- Accesses of the usual sizes are kept. -/
theorem traced_of_mem_sizes {e : MemoryEvent} (h : e.size.toNat ∈ sizes) : e.Traced := by
  obtain ⟨frame, hframe⟩ := Record.accepted_memoryEvent e
  refine ⟨frame, fun w => TraceWriter.write_eq_ok_iff.mpr ⟨frame, hframe, rfl⟩, fun rest => ?_⟩
  exact nextRecord_eq_some_iff.mpr ⟨[], frame, rfl, h, hframe⟩

end MemoryEvent

namespace Watched

open MemoryEvent (sizes pieces Transfers Traced)

/-- What is kept of an access that succeeds. -/
theorem events_of_forward {mode : BulkMode} {α : Type} {act : MemoryM α} (event : α → List MemoryEvent)
    {w w' : Watched mode} {v : α} (h : outcome (forward act event) w = (.ok v, w')) :
    w'.events = w.events ++ (event v).toArray := by
  rw [outcome_forward] at h
  rcases hact : outcome act w.memory with ⟨e | u, m⟩
  · rw [hact] at h
    cases h
  · rw [hact] at h
    cases h
    rfl

/-- **Runs of bytes.** What is kept of a run of bytes that is read or written at once are its pieces. They are
    accesses of the usual sizes, one behind the other, that transfer exactly these bytes; accesses of these sizes
    that are fewer do not transfer as many bytes; and a trace keeps each of them as it is. -/
theorem logs_runs_exactly :
    (∀ (w w' : Watched .whole) (a : UInt64) (n : Nat) (data : ByteArray),
      outcome (Bus.readBytes a n) w = (.ok data, w') →
        w'.events = w.events ++ (pieces false a (byteList data)).toArray) ∧
    (∀ (w w' : Watched .whole) (a : UInt64) (data : ByteArray),
      outcome (Bus.writeBytes a data) w = (.ok (), w') →
        w'.events = w.events ++ (pieces true a (byteList data)).toArray) ∧
    ∀ (write : Bool) (a : UInt64) (bs : List UInt8),
      Transfers write a bs (pieces write a bs) ∧
      (∀ ns : List Nat, (∀ n ∈ ns, n ∈ sizes) → ns.sum = bs.length → (pieces write a bs).length ≤ ns.length) ∧
      ∀ e ∈ pieces write a bs, e.Traced := by
  refine ⟨fun w w' a n data h => events_of_forward (fun data => pieces false a (byteList data)) h,
    fun w w' a data h => events_of_forward (fun _ => pieces true a (byteList data)) h, fun write a bs => ?_⟩
  have htransfers := MemoryEvent.transfers_pieces write a bs
  refine ⟨htransfers, fun ns hns hsum => ?_, fun e he => MemoryEvent.traced_of_mem_sizes (htransfers.sizes e he)⟩
  rw [MemoryEvent.length_pieces, ← hsum]
  exact MemoryEvent.fewest_sum_le hns

/-- A heap under observation. -/
def watchedHeap : Watched .whole where
  memory := (Memory.empty {}).afterCalls [.map ⟨0x1000, 0x1020, .readWrite, 0, "heap"⟩ (packed (List.replicate 32 0))]
  events := #[]

/-- A run of 23 bytes is written as four accesses, and no three do. Where the run begins just below the greatest
    address, the second of them is behind the start of the address space. -/
theorem logs_runs_exactly_wrapping :
    (outcome (Bus.writeBytes 0x1000 (packed (List.replicate 23 7))) watchedHeap).2.events.toList.map
        (fun e => (e.address, e.size)) = [(0x1000, 16), (0x1010, 4), (0x1014, 2), (0x1016, 1)] ∧
      (∀ ns : List Nat, (∀ n ∈ ns, n ∈ sizes) → ns.sum = 23 → 4 ≤ ns.length) ∧
      (pieces true 0xfffffffffffffff8 (List.replicate 23 7)).map (fun e => e.address) =
        [0xfffffffffffffff8, 0x8, 0xc, 0xe] ∧
      Transfers true 0xfffffffffffffff8 (List.replicate 23 7)
        (pieces true 0xfffffffffffffff8 (List.replicate 23 7)) := by
  have hwrite : (outcome (Bus.writeBytes 0x1000 (packed (List.replicate 23 7))) watchedHeap).1 = .ok () := by
    decide +kernel
  obtain ⟨-, hevents, hpieces⟩ := logs_runs_exactly
  refine ⟨?_, fun ns hns hsum => ?_, ?_, (hpieces _ _ _).1⟩
  · have hlogged : (outcome (Bus.writeBytes 0x1000 (packed (List.replicate 23 7))) watchedHeap).2.events = _ :=
      hevents watchedHeap _ 0x1000 _ (Prod.ext hwrite rfl)
    rw [hlogged]
    decide +kernel
  · have hfewest := (hpieces true 0x1000 (List.replicate 23 7)).2.1 ns hns hsum
    rwa [MemoryEvent.length_pieces] at hfewest
  · decide +kernel

end Watched

end Amd64
