import Amd64.Decoder.Basic
import Amd64.Proofs.Decoder.Primary
import Amd64.Proofs.Decoder.Secondary
import Amd64.Proofs.Decoder.Vex

namespace Amd64

/-!
# Decoding reads a prefix code

* `Reader.ensures_operation` — an instruction is decided by the bytes that it consists of;
* `decode_of_reads`, `decode_of_missing` — decoding where the window holds all bytes and where not;
* `wellFormed_of_decode` — decoded operations are well formed;
* `decode_prefixCode` — bytes behind an instruction or a refused encoding do not matter, and every front
  part of an instruction is too short.
-/

namespace Reader

open Operation

/-- Every opcode, with any prefixes, reads a well-formed operation or nothing. -/
theorem ensures_body (p : Prefixes) (op : UInt8) : (body p op).Ensures WellFormed := by
  refine Ensures.ite (fun _ => p.ensures_vex op) fun _ => Ensures.ite (fun _ => ?_) fun _ => ?_
  · exact ensures_byte.bind fun second _ => p.ensures_secondary second
  · exact p.ensures_primary op

/-- **Instructions.** Reading an instruction yields a well-formed operation, and depends on the bytes that
    it reads only. -/
theorem ensures_operation : operation.Ensures WellFormed := by
  refine Prefixes.ensures_read.bind fun ⟨p, op⟩ _ => (ensures_body p op).bind fun o ho => ?_
  exact Ensures.ite (fun _ => ensures_invalid) fun _ => ensures_pure ho

/-- There is no instruction without bytes. -/
theorem Reads.ne_nil {used : List UInt8} {result : Except Refusal Operation}
    (h : operation.Reads used result) : used ≠ [] := by
  rintro rfl
  -- already the prefix loop wants a byte
  have hnone : operation.parse [] = none := rfl
  exact absurd ((h.complete []).symm.trans hnone) (Option.some_ne_none _)

end Reader

/-! ### The window -/

namespace Encoding

theorem bytes_ofBytes {bs : List UInt8} (h : bs.length ≤ maxSize) : (ofBytes bs).bytes = bs :=
  List.take_of_length_le h

/-- Only the first fifteen bytes are kept. -/
theorem ofBytes_take (bs : List UInt8) : ofBytes (bs.take maxSize) = ofBytes bs := by
  simp only [ofBytes, List.take_take, Nat.min_self]

end Encoding

/-- What decoding makes of the bytes `used` if reading them had `result`. -/
def decoded (rip : UInt64) (used : List UInt8) :
    Except Refusal Operation → Except DecodeError Instruction
  | .ok o => .ok ⟨rip, .ofBytes used, o.relocate (rip + UInt64.ofNat used.length)⟩
  | .error refusal => .error ⟨rip, .ofBytes used, refusal.cause⟩

variable (rip : UInt64)

/-- Where the window begins with all bytes of an instruction, what follows does not matter. -/
theorem decode_of_reads {used : List UInt8} {result : Except Refusal Operation}
    (h : Reader.operation.Reads used result) (hlen : used.length ≤ Encoding.maxSize)
    (s : List UInt8) : decode rip (used ++ s) = decoded rip used result := by
  have hwindow : (used ++ s).take Encoding.maxSize =
      used ++ s.take (Encoding.maxSize - used.length) := by
    rw [List.take_append, List.take_of_length_le hlen]
  have hsize : (used ++ s.take (Encoding.maxSize - used.length)).length -
      (s.take (Encoding.maxSize - used.length)).length = used.length := by
    rw [List.length_append, Nat.add_sub_cancel]
  -- the window begins with `used`, and the reader leaves the rest of the window
  unfold decode
  simp only [hwindow, h.complete]
  cases result with
  | ok o => simp only [hsize, List.take_left, decoded]
  | error refusal => simp only [hsize, List.take_left, decoded]

/-- Where the window ends inside an instruction, it depends on its length which error this is. -/
theorem decode_of_missing {bs : List UInt8}
    (h : Reader.operation.parse (bs.take Encoding.maxSize) = none) :
    decode rip bs = .error ⟨rip, .ofBytes bs,
      if bs.length ≤ Encoding.maxSize then .unexpectedEnd else .tooLong⟩ := by
  unfold decode
  simp only [h, Encoding.ofBytes_take]

/-- The window ends inside an instruction, or begins with all of its bytes. -/
theorem missing_or_reads (bs : List UInt8) :
    Reader.operation.parse (bs.take Encoding.maxSize) = none ∨
      ∃ used s result, bs = used ++ s ∧ used.length ≤ Encoding.maxSize ∧
        Reader.operation.Reads used result ∧ ∀ o, result = .ok o → o.WellFormed := by
  cases hparse : Reader.operation.parse (bs.take Encoding.maxSize) with
  | none => exact Or.inl rfl
  | some found =>
    obtain ⟨result, rest⟩ := found
    obtain ⟨used, hused, hreads⟩ := Reader.ensures_operation.reads hparse
    have hlen : used.length ≤ Encoding.maxSize := by
      have htake := congrArg List.length hused
      rw [List.length_take, List.length_append] at htake
      omega
    refine Or.inr ⟨used, rest ++ bs.drop Encoding.maxSize, result, ?_, hlen, hreads, ?_⟩
    · rw [← List.append_assoc, ← hused, List.take_append_drop]
    · rintro o rfl
      exact Reader.ensures_operation.value hparse

/-- An instruction keeps the bytes that were read. -/
theorem decoded_ok {used : List UInt8} {result : Except Refusal Operation} {i : Instruction}
    (h : decoded rip used result = .ok i) : i.encoding = .ofBytes used := by
  cases result with
  | ok o =>
    obtain rfl := Except.ok.inj h
    rfl
  | error refusal => exact nomatch h

/-- An error says where, with the bytes that were read, and why. -/
theorem decoded_error {used : List UInt8} {result : Except Refusal Operation} {e : DecodeError}
    (h : decoded rip used result = .error e) :
    e.addr = rip ∧ e.encoding = .ofBytes used ∧ (e.cause = .invalid ∨ e.cause = .unsupported) := by
  cases result with
  | ok o => exact nomatch h
  | error refusal =>
    obtain rfl := Except.error.inj h
    cases refusal with
    | invalid => exact ⟨rfl, rfl, Or.inl rfl⟩
    | unsupported => exact ⟨rfl, rfl, Or.inr rfl⟩

/-- Every front part of the bytes of an instruction ends too early. -/
theorem decode_take_of_reads {used : List UInt8} {result : Except Refusal Operation}
    (h : Reader.operation.Reads used result) (hlen : used.length ≤ Encoding.maxSize) {k : Nat}
    (hk : k < used.length) :
    decode rip (used.take k) = .error ⟨rip, .ofBytes (used.take k), .unexpectedEnd⟩ := by
  have hshort : (used.take k).length ≤ Encoding.maxSize := by
    rw [List.length_take]
    omega
  have hmissing : Reader.operation.parse ((used.take k).take Encoding.maxSize) = none := by
    rw [List.take_of_length_le hshort]
    exact h.missing k hk
  rw [decode_of_missing rip hmissing, if_pos hshort]

/-- Decoded operations are well formed. -/
theorem wellFormed_of_decode {bs : List UInt8} {i : Instruction} (h : decode rip bs = .ok i) :
    i.operation.WellFormed := by
  rcases missing_or_reads bs with hmissing | ⟨used, s, result, rfl, hlen, hreads, hwf⟩
  · rw [decode_of_missing rip hmissing] at h
    exact nomatch h
  · rw [decode_of_reads rip hreads hlen] at h
    cases result with
    | ok o =>
      obtain rfl := Except.ok.inj h
      exact (hwf o rfl).relocate _
    | error refusal => exact nomatch h

/-- An instruction knows its address. -/
theorem rip_of_decode {rip : UInt64} {bs : List UInt8} {i : Instruction} (h : decode rip bs = .ok i) :
    i.rip = rip := by
  simp only [decode] at h
  split at h
  · exact nomatch h
  · exact nomatch h
  · rw [← Except.ok.inj h]

/-! ### The prefix code -/

/-- An instruction consists of one to fifteen bytes, which decide it, and of no fewer. -/
theorem decode_ok_spec {bs : List UInt8} {i : Instruction} (h : decode rip bs = .ok i) :
    1 ≤ i.size ∧ i.size ≤ 15 ∧ i.encoding.bytes = bs.take i.size ∧
      (∀ s, decode rip (bs.take i.size ++ s) = .ok i) ∧
      ∀ k < i.size, ∃ e, decode rip (bs.take k) = .error e ∧ e.cause = .unexpectedEnd ∧
        e.encoding.bytes = bs.take k := by
  rcases missing_or_reads bs with hmissing | ⟨used, s, result, rfl, hlen, hreads, -⟩
  · rw [decode_of_missing rip hmissing] at h
    exact nomatch h
  · rw [decode_of_reads rip hreads hlen] at h
    have henc : i.encoding.bytes = used := by
      rw [decoded_ok rip h, Encoding.bytes_ofBytes hlen]
    have hsize : i.size = used.length := congrArg List.length henc
    have htake : (used ++ s).take i.size = used := by
      rw [hsize, List.take_left]
    refine ⟨?_, hsize ▸ hlen, henc.trans htake.symm, fun s' => ?_, fun k hk => ?_⟩
    · rw [hsize]
      exact List.length_pos_iff.mpr hreads.ne_nil
    -- the bytes behind the instruction play no part, and a proper prefix of it leaves the reader short
    · rw [htake, decode_of_reads rip hreads hlen, h]
    · rw [hsize] at hk
      rw [List.take_append_of_le_length (Nat.le_of_lt hk)]
      refine ⟨_, decode_take_of_reads rip hreads hlen hk, rfl, Encoding.bytes_ofBytes ?_⟩
      rw [List.length_take]
      omega

/-- Bytes behind a refused encoding do not matter. -/
theorem decode_append_of_refused {bs : List UInt8} {e : DecodeError} (h : decode rip bs = .error e)
    (hcause : e.cause = .invalid ∨ e.cause = .unsupported) (s : List UInt8) :
    decode rip (bs ++ s) = .error e := by
  rcases missing_or_reads bs with hmissing | ⟨used, rest, result, rfl, hlen, hreads, -⟩
  · rw [decode_of_missing rip hmissing] at h
    -- with bytes missing the cause is another one
    obtain rfl := Except.error.inj h
    simp only at hcause
    split at hcause <;> simp at hcause
  · rw [decode_of_reads rip hreads hlen] at h
    rw [List.append_assoc, decode_of_reads rip hreads hlen, h]

/-- What is too long ends too early where fifteen of the bytes are left. -/
theorem decode_tooLong_iff (bs : List UInt8) :
    (∃ e, decode rip bs = .error e ∧ e.cause = .tooLong) ↔
      15 < bs.length ∧ ∃ e, decode rip (bs.take 15) = .error e ∧ e.cause = .unexpectedEnd := by
  rcases missing_or_reads bs with hmissing | ⟨used, rest, result, rfl, hlen, hreads, -⟩
  -- the window alone is short, so the same reader misses bytes in it too
  · have hshort : (bs.take 15).length ≤ Encoding.maxSize := List.length_take_le 15 bs
    have hagain : Reader.operation.parse ((bs.take 15).take Encoding.maxSize) = none := by
      rw [List.take_of_length_le hshort]
      exact hmissing
    rw [decode_of_missing rip hmissing, decode_of_missing rip hagain, if_pos hshort]
    constructor
    · rintro ⟨e, he, hcause⟩
      obtain rfl := Except.error.inj he
      refine ⟨Nat.lt_of_not_le fun hle => ?_, _, rfl, rfl⟩
      simp [Encoding.maxSize, hle] at hcause
    · rintro ⟨hlong, -⟩
      exact ⟨_, rfl, if_neg (Nat.not_le.mpr hlong)⟩
  · -- neither of the two errors comes from a window with all bytes
    have htake : (used ++ rest).take 15 = used ++ rest.take (15 - used.length) := by
      rw [List.take_append, List.take_of_length_le (show used.length ≤ 15 from hlen)]
    rw [htake, decode_of_reads rip hreads hlen, decode_of_reads rip hreads hlen]
    constructor
    · rintro ⟨e, he, hcause⟩
      obtain ⟨-, -, hrefused⟩ := decoded_error rip he
      simp [hcause] at hrefused
    · rintro ⟨-, e, he, hcause⟩
      obtain ⟨-, -, hrefused⟩ := decoded_error rip he
      simp [hcause] at hrefused

/-- An error keeps the address and some of the first bytes. -/
theorem decode_error_spec {bs : List UInt8} {e : DecodeError} (h : decode rip bs = .error e) :
    e.addr = rip ∧ e.encoding.bytes <+: bs ∧ e.encoding.bytes.length ≤ 15 ∧
      (bs ≠ [] → e.encoding.bytes ≠ []) := by
  rcases missing_or_reads bs with hmissing | ⟨used, rest, result, rfl, hlen, hreads, -⟩
  · rw [decode_of_missing rip hmissing] at h
    obtain rfl := Except.error.inj h
    refine ⟨rfl, List.take_prefix _ bs, List.length_take_le _ bs, fun hne hnil => ?_⟩
    have hnone : bs.take Encoding.maxSize = [] := hnil
    simp [Encoding.maxSize, hne] at hnone
  · rw [decode_of_reads rip hreads hlen] at h
    obtain ⟨haddr, henc, -⟩ := decoded_error rip h
    rw [henc, Encoding.bytes_ofBytes hlen]
    exact ⟨haddr, List.prefix_append used rest, hlen, fun _ => hreads.ne_nil⟩

/-- **Prefix code.** An instruction that is decoded consists of one to fifteen bytes, bytes behind it do
    not matter, and each of its front parts ends too early.  Bytes behind a refused encoding do not matter
    either.  An instruction is too long if fifteen bytes end too early and there are more.  Errors keep
    the address and the bytes up to the failure. -/
theorem decode_prefixCode (bs : List UInt8) :
    (∀ i, decode rip bs = .ok i →
      1 ≤ i.size ∧ i.size ≤ 15 ∧ i.encoding.bytes = bs.take i.size ∧
        (∀ s, decode rip (bs.take i.size ++ s) = .ok i) ∧
        ∀ k < i.size, ∃ e, decode rip (bs.take k) = .error e ∧ e.cause = .unexpectedEnd ∧
          e.encoding.bytes = bs.take k) ∧
    (∀ e, decode rip bs = .error e → e.cause = .invalid ∨ e.cause = .unsupported →
      ∀ s, decode rip (bs ++ s) = .error e) ∧
    ((∃ e, decode rip bs = .error e ∧ e.cause = .tooLong) ↔
      15 < bs.length ∧ ∃ e, decode rip (bs.take 15) = .error e ∧ e.cause = .unexpectedEnd) ∧
    ∀ e, decode rip bs = .error e →
      e.addr = rip ∧ e.encoding.bytes <+: bs ∧ e.encoding.bytes.length ≤ 15 ∧
        (bs ≠ [] → e.encoding.bytes ≠ []) :=
  ⟨fun _ hi => decode_ok_spec rip hi,
    fun _ he hcause s => decode_append_of_refused rip he hcause s,
    decode_tooLong_iff rip bs,
    fun _ he => decode_error_spec rip he⟩

end Amd64
