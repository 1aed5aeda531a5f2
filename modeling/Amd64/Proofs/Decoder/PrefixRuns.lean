import Amd64.Proofs.Decoder.Basic

namespace Amd64

/-!
# Runs of prefixes

* `isPrefixByte`, `lastOf`, `rexOf` — what counts in a run of prefixes;
* `segmentOverride`      — the segment that the prefixes in front of an instruction select;
* `Prefixes.ofRun`       — what a run says;
* `Prefixes.add?_ofRun`, `Prefixes.readFrom_append` — one more prefix, and by induction a run of them;
* `SamePrefixes`         — two runs say the same;
* `SameDecoding`         — two results of decoding are the same but for the bytes that they keep;
* `decode_prefixRun`     — behind runs that say the same the same is decoded.
-/

/-- Whether a byte in front of an opcode is a prefix. -/
def isPrefixByte (b : UInt8) : Bool :=
  b ∈ [0x26, 0x2e, 0x36, 0x3e, 0x64, 0x65, 0x66, 0x67, 0xf0, 0xf2, 0xf3] ∨ b &&& 0xf0 = 0x40

/-- The segment that a prefix selects. -/
def SegmentRegister.ofPrefixByte? (b : UInt8) : Option SegmentRegister :=
  if b = 0x64 then some .fs else if b = 0x65 then some .gs else none

/-- The segment that the last of the prefixes that select one selects. -/
def segmentOverride (bs : List UInt8) : Option SegmentRegister :=
  ((bs.takeWhile isPrefixByte).filterMap SegmentRegister.ofPrefixByte?).getLast?

/-- The prefix that a byte is among those that repeat or select an instruction. -/
def RepeatByte.ofPrefixByte? (b : UInt8) : Option RepeatByte :=
  if b = 0xf2 then some .f2 else if b = 0xf3 then some .f3 else none

/-- What the last byte of a run selects of those that select something. -/
def lastOf {α : Type} (f : UInt8 → Option α) (run : List UInt8) : Option α :=
  (run.filterMap f).getLast?

/-- The REX byte at the end of a run, which is directly before the opcode. -/
def rexOf (run : List UInt8) : Option UInt8 :=
  run.getLast?.filter fun b => b &&& 0xf0 = 0x40

/-- A byte that counts hides those before it. -/
theorem lastOf_concat {α : Type} (f : UInt8 → Option α) (run : List UInt8) (b : UInt8) :
    lastOf f (run ++ [b]) = (f b).or (lastOf f run) := by
  cases h : f b <;> simp [lastOf, h]

/-- Only the last byte of a run can be REX. -/
theorem rexOf_concat (run : List UInt8) (b : UInt8) :
    rexOf (run ++ [b]) = if b &&& 0xf0 = 0x40 then some b else none := by
  by_cases h : b &&& 0xf0 = 0x40 <;> simp [rexOf, h]

/-- None of the other prefixes is a REX byte. -/
theorem and_ne_rex : ∀ c : UInt8,
    c ∈ [0x26, 0x2e, 0x36, 0x3e, 0x64, 0x65, 0x66, 0x67, 0xf0, 0xf2, 0xf3] → c &&& 0xf0 ≠ 0x40 := by
  simp only [List.forall_mem_cons, List.not_mem_nil, false_implies, implies_true, and_true]
  decide

namespace Prefixes

/-- What a run of prefixes says. -/
def ofRun (run : List UInt8) : Prefixes where
  operand16 := 0x66 ∈ run
  narrow := 0x67 ∈ run
  lock := 0xf0 ∈ run
  repeatByte := lastOf RepeatByte.ofPrefixByte? run
  segment := lastOf SegmentRegister.ofPrefixByte? run
  hasRex := (rexOf run).isSome
  extension := ((rexOf run).map Extension.ofRex).getD .empty

variable {run : List UInt8} {b : UInt8}

/-- **One more prefix.** -/
theorem add?_ofRun (run : List UInt8) (h : isPrefixByte b = true) :
    (ofRun run).add? b = some (ofRun (run ++ [b])) := by
  rw [isPrefixByte, decide_eq_true_eq] at h
  rcases h with hother | hrex
  · -- a prefix that is no REX byte drops the one before it, and `rexOf` looks at the end of the run only
    have hrex := and_ne_rex b hother
    simp only [List.mem_cons, List.not_mem_nil, or_false] at hother
    rcases hother with rfl | rfl | rfl | rfl | rfl | rfl | rfl | rfl | rfl | rfl | rfl <;>
      simp [add?, dropRex, ofRun, lastOf_concat, rexOf_concat, RepeatByte.ofPrefixByte?,
        SegmentRegister.ofPrefixByte?, hrex]
  · -- a REX byte takes the place of the one before it and says nothing else
    have hother : b ∉ _ := fun hmem => and_ne_rex b hmem hrex
    simp only [List.mem_cons, List.not_mem_nil, or_false, not_or] at hother
    obtain ⟨h26, h2e, h36, h3e, h64, h65, h66, h67, hf0, hf2, hf3⟩ := hother
    simp [add?, ofRun, lastOf_concat, rexOf_concat, RepeatByte.ofPrefixByte?,
      SegmentRegister.ofPrefixByte?, hrex, h26, h2e, h36, h3e, h64, h65, h66, h67, hf0, hf2, hf3,
      Ne.symm h66, Ne.symm h67, Ne.symm hf0]

/-- No other byte changes the prefixes. -/
theorem add?_of_not_isPrefixByte (p : Prefixes) (h : isPrefixByte b = false) : p.add? b = none := by
  rw [isPrefixByte, decide_eq_false_iff_not] at h
  simp only [List.mem_cons, List.not_mem_nil, or_false, not_or] at h
  obtain ⟨⟨h26, h2e, h36, h3e, h64, h65, h66, h67, hf0, hf2, hf3⟩, hrex⟩ := h
  simp [add?, h26, h2e, h36, h3e, h64, h65, h66, h67, hf0, hf2, hf3, hrex]

/-- **Runs.** What the loop knows behind a run is what the run says. -/
theorem readFrom_append (run : List UInt8) {more : List UInt8} (h : ∀ b ∈ more, isPrefixByte b = true)
    (bs : List UInt8) : readFrom (ofRun run) (more ++ bs) = readFrom (ofRun (run ++ more)) bs := by
  -- the run grows by the prefix that was read
  induction more generalizing run with
  | nil => rw [List.nil_append, List.append_nil]
  | cons b more ih =>
    obtain ⟨hb, hmore⟩ := List.forall_mem_cons.mp h
    rw [List.cons_append, readFrom, add?_ofRun run hb]
    show readFrom (ofRun (run ++ [b])) (more ++ bs) = _
    rw [ih _ hmore, List.append_assoc, List.singleton_append]

/-- After a run of prefix bytes the reader stands behind it, with the prefixes of the run. -/
theorem parse_read_append (h : ∀ b ∈ run, isPrefixByte b = true) (bs : List UInt8) :
    read.parse (run ++ bs) = readFrom (ofRun run) bs :=
  readFrom_append [] h bs

/-- Behind prefixes only, the opcode is missing. -/
theorem parse_read_of_forall (h : ∀ b ∈ run, isPrefixByte b = true) : read.parse run = none := by
  rw [← List.append_nil run, parse_read_append h, readFrom]

/-- Behind a run comes the opcode. -/
theorem parse_read_run (h : ∀ b ∈ run, isPrefixByte b = true) {op : UInt8}
    (hop : isPrefixByte op = false) (bs : List UInt8) :
    read.parse (run ++ op :: bs) = some (.ok (ofRun run, op), bs) := by
  rw [parse_read_append h, readFrom, add?_of_not_isPrefixByte _ hop]

end Prefixes

/-! ### Decoding -/

/-- Two runs say the same. Order and repetition do not matter otherwise, and other bytes do not matter. -/
structure SamePrefixes (xs ys : List UInt8) : Prop where
  operand16 : 0x66 ∈ xs ↔ 0x66 ∈ ys
  narrow : 0x67 ∈ xs ↔ 0x67 ∈ ys
  lock : 0xf0 ∈ xs ↔ 0xf0 ∈ ys
  repeatByte : lastOf RepeatByte.ofPrefixByte? xs = lastOf RepeatByte.ofPrefixByte? ys
  segment : lastOf SegmentRegister.ofPrefixByte? xs = lastOf SegmentRegister.ofPrefixByte? ys
  rex : rexOf xs = rexOf ys

/-- Runs that agree on the facts have the same prefixes. -/
theorem SamePrefixes.ofRun_eq {xs ys : List UInt8} (h : SamePrefixes xs ys) :
    Prefixes.ofRun xs = Prefixes.ofRun ys := by
  simp only [Prefixes.ofRun, h.operand16, h.narrow, h.lock, h.repeatByte, h.segment, h.rex]

/-- Both results are instructions with one operation and one size, or both are errors with one cause. -/
def SameDecoding : Except DecodeError Instruction → Except DecodeError Instruction → Prop
  | .ok i, .ok j => i.operation = j.operation ∧ i.size = j.size
  | .error d, .error e => d.cause = e.cause
  | _, _ => False

/-- Of the bytes themselves an instruction only keeps a copy. -/
theorem sameDecoding_of_parse_eq {bs cs : List UInt8} (hlen : bs.length = cs.length)
    (hparse : Reader.operation.parse (bs.take Encoding.maxSize) =
      Reader.operation.parse (cs.take Encoding.maxSize)) (rip : UInt64) :
    SameDecoding (decode rip bs) (decode rip cs) := by
  have hwindow : (bs.take Encoding.maxSize).length = (cs.take Encoding.maxSize).length := by
    rw [List.length_take, List.length_take, hlen]
  simp only [decode, hparse, hwindow, hlen]
  rcases Reader.operation.parse (cs.take Encoding.maxSize) with _ | ⟨refusal | o, rest⟩
  · rfl
  · rfl
  · refine ⟨rfl, ?_⟩
    simp only [Instruction.size, Encoding.size, Encoding.ofBytes, List.length_take, hlen]

/-- Without an opcode there is no operation. -/
theorem Reader.parse_operation_of_none {bs : List UInt8} (h : Prefixes.read.parse bs = none) :
    operation.parse bs = none := by
  rw [operation, parse_bind, h]

/-- **Runs of prefixes.** Behind runs of one length that say the same the same is decoded. -/
theorem decode_prefixRun {xs ys : List UInt8} (hxs : ∀ b ∈ xs, isPrefixByte b = true)
    (hys : ∀ b ∈ ys, isPrefixByte b = true) (hlen : xs.length = ys.length) (hsame : SamePrefixes xs ys)
    {op : UInt8} (hop : isPrefixByte op = false) (rip : UInt64) (bs : List UInt8) :
    SameDecoding (decode rip (xs ++ op :: bs)) (decode rip (ys ++ op :: bs)) := by
  refine sameDecoding_of_parse_eq (by rw [List.length_append, List.length_append, hlen]) ?_ rip
  rw [List.take_append, List.take_append, hlen]
  by_cases hlong : Encoding.maxSize ≤ ys.length
  · -- the window holds nothing but prefixes
    have hnone : ∀ zs : List UInt8, (∀ b ∈ zs, isPrefixByte b = true) →
        Reader.operation.parse (zs.take Encoding.maxSize) = none := fun zs hzs =>
      Reader.parse_operation_of_none <| Prefixes.parse_read_of_forall fun b hb =>
        hzs b (List.mem_of_mem_take hb)
    rw [Nat.sub_eq_zero_of_le hlong, List.take_zero, List.append_nil, List.append_nil, hnone xs hxs,
      hnone ys hys]
  · obtain ⟨k, hk⟩ := Nat.exists_eq_add_of_lt (Nat.not_le.mp hlong)
    have hroom : Encoding.maxSize - ys.length = k + 1 := by omega
    rw [List.take_of_length_le (show xs.length ≤ _ by omega),
      List.take_of_length_le (show ys.length ≤ _ by omega), hroom, List.take_succ_cons, Reader.operation,
      Reader.parse_bind, Reader.parse_bind, Prefixes.parse_read_run hxs hop,
      Prefixes.parse_read_run hys hop, hsame.ofRun_eq]

/-- `movss xmm9, [rax]` behind two runs that end in `f3 44`. -/
theorem decode_prefixRun_movss :
    let xs : List UInt8 := [0x66, 0x48, 0xf2, 0x66, 0xf3, 0x44]
    let ys : List UInt8 := [0xf2, 0xf3, 0x2e, 0x66, 0x26, 0x44]
    SamePrefixes xs ys ∧
      decode 0x1000 (xs ++ [0x0f, 0x10, 0x08]) = .ok ⟨0x1000, .ofBytes (xs ++ [0x0f, 0x10, 0x08]),
        .sse (.moveScalar .single) (.vec ⟨9, .xmm⟩) (.mem ⟨.register .rax, none, .one, 0, none, false⟩)⟩ ∧
      SameDecoding (decode 0x1000 (xs ++ [0x0f, 0x10, 0x08])) (decode 0x1000 (ys ++ [0x0f, 0x10, 0x08])) := by
  intro xs ys
  have hsame : SamePrefixes xs ys := by constructor <;> decide
  have hxs : ∀ b ∈ xs, isPrefixByte b = true := List.all_eq_true.mp rfl
  have hys : ∀ b ∈ ys, isPrefixByte b = true := List.all_eq_true.mp rfl
  have hop : isPrefixByte 0x0f = false := by decide
  exact ⟨hsame, rfl, decode_prefixRun hxs hys rfl hsame hop 0x1000 [0x10, 0x08]⟩

end Amd64
