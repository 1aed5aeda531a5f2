import Amd64.Proofs.Machine.Fetch

namespace Amd64

/-!
# Fetched instructions and the code they come from

Only the first fifteen bytes of the code at an address are fetched before they are decoded.

* `Memory.IsCodeRun`              — the bytes of the longest run of executable cells from an address on;
* `Memory.IsCodeRun.byteList_runnable` — what is fetched is a front part of this run;
* `DecodeError.cutOff`            — an error as it is reported where fifteen bytes are all there is;
* `decode_take_maxSize`           — decoding fifteen bytes in place of all differs in nothing else;
* `fetchInstruction_codeRun`      — hence a fetched instruction is the one that the code decodes to, but no
  fetched instruction is reported to be too long.
-/

namespace Memory

/-- `code` consists of the bytes of the longest run of executable cells from `a` on. -/
structure IsCodeRun (m : Memory) (a : Nat) (code : List UInt8) : Prop where
  cells : ∀ i (hi : i < code.length), ∃ p, m.view? (a + i) = some (code[i], p) ∧ p.execute = true
  stops : ¬ m.Permits (·.execute) (a + code.length)

variable {m : Memory} {a : Nat} {code : List UInt8}

/-- Each byte of the run can be executed. -/
theorem IsCodeRun.permits (h : m.IsCodeRun a code) {i : Nat} (hi : i < code.length) :
    m.Permits (·.execute) (a + i) := by
  obtain ⟨p, hcell, hexecute⟩ := h.cells i hi
  exact ⟨_, hcell, hexecute⟩

/-- There is no more than one such run from an address on. -/
theorem IsCodeRun.unique {other : List UInt8} (h : m.IsCodeRun a code) (h' : m.IsCodeRun a other) :
    other = code := by
  -- the shorter one would stop where the longer one has a cell that may be executed
  have hlength : other.length = code.length := by
    obtain hlt | heq | hgt := Nat.lt_trichotomy other.length code.length
    · exact absurd (h.permits hlt) h'.stops
    · exact heq
    · exact absurd (h'.permits hgt) h.stops
  refine List.ext_getElem hlength fun i hi' hi => ?_
  obtain ⟨p, hcell, -⟩ := h.cells i hi
  obtain ⟨p', hcell', -⟩ := h'.cells i hi'
  have hsame := Option.some.inj (hcell'.symm.trans hcell)
  exact congrArg Prod.fst hsame

/-- Runs end, at the greatest address at the latest. -/
theorem exists_isCodeRun (m : Memory) (a : Nat) : ∃ code, m.IsCodeRun a code := by
  classical
  have hends : ∃ k, ¬ m.Permits (·.execute) (a + k) := by
    refine ⟨UInt64.size, fun ⟨c, hcell, _⟩ => ?_⟩
    rw [m.view?_eq_none_of_size_le (Nat.le_add_left _ _)] at hcell
    cases hcell
  have hcells : ∀ i, i < Nat.find hends → ∃ c, m.view? (a + i) = some c ∧ c.2.execute = true :=
    fun i hi => not_not.mp (Nat.find_min hends hi)
  refine ⟨(List.range (Nat.find hends)).map fun i => ((m.view? (a + i)).map Prod.fst).getD 0, ?_, ?_⟩
  · intro i hi
    rw [List.length_map, List.length_range] at hi
    obtain ⟨c, hcell, hexecute⟩ := hcells i hi
    exact ⟨c.2, by simp [hcell], hexecute⟩
  · rw [List.length_map, List.length_range]
    exact Nat.find_spec hends

/-- **Front parts.** The executable bytes that are found from an address on, at most `n` of them, are the first
    ones of the run. -/
theorem IsCodeRun.byteList_runnable (h : m.IsCodeRun a code) (hm : m.table.WellFormed) (n : Nat) :
    byteList (m.table.runnable a n) = code.take n := by
  have hlength : (code.take n).length = min n code.length := List.length_take
  -- the run goes on for `n` addresses, or as long as there is code
  have haddresses : m.table.code a n = List.range' a (min n code.length) := by
    have hruns : ∀ x, a ≤ x → x < a + min n code.length → m.table.runs x = true := by
      intro x hax hx
      obtain ⟨i, rfl⟩ := Nat.exists_eq_add_of_le hax
      exact runs_iff.mpr (h.permits (by omega))
    have hsplit := Table.code_add hruns (n - min n code.length)
    rw [Nat.add_sub_of_le (Nat.min_le_left _ _)] at hsplit
    rw [hsplit]
    by_cases hn : n ≤ code.length
    · rw [Nat.min_eq_left hn, Nat.sub_self, Table.code_zero, List.append_nil]
    · have hstops : m.table.runs (a + code.length) = false :=
        Bool.eq_false_iff.mpr fun hruns => h.stops (runs_iff.mp hruns)
      rw [Nat.min_eq_right (by omega), Table.code_of_not_runs hstops, List.append_nil]
  refine (List.map_inj_right fun _ _ => Option.some.inj).mp ?_
  rw [hm.byteList_runnable, haddresses]
  apply List.ext_getElem
  · rw [List.length_map, List.length_map, List.length_range', hlength]
  · intro i hi _
    rw [List.length_map, List.length_range'] at hi
    obtain ⟨p, hcell, -⟩ := h.cells i (by omega)
    have hview : m.table.view? (a + i) = some (code[i], p) := hcell
    simp only [List.getElem_map, List.getElem_range', List.getElem_take, Nat.one_mul, hview,
      Option.map_some]

/-- What is fetched of code whose first byte may be executed. -/
theorem exists_fetch_of_isCodeRun {rip : UInt64} (hm : m.table.WellFormed)
    (h : m.IsCodeRun rip.toNat code) (hfirst : m.Permits (·.execute) rip.toNat) {n : Nat} (hn : n ≠ 0) :
    ∃ bytes, m.fetch rip n = .ok bytes ∧ byteList bytes = code.take n := by
  have hbytes := h.byteList_runnable hm n
  have hcode : code ≠ [] := by
    rintro rfl
    exact h.stops hfirst
  have hpos : (m.table.runnable rip.toNat n).size ≠ 0 := by
    rw [← length_byteList, hbytes, List.length_take]
    have := List.length_pos_iff.mpr hcode
    omega
  exact ⟨_, if_neg (by simp [hpos]), hbytes⟩

end Memory

/-! ### Fifteen bytes in place of all -/

/-- The error as it is reported where fifteen bytes are all there is: what would be too long ends too early. -/
def DecodeError.cutOff (e : DecodeError) : DecodeError :=
  { e with cause := if e.cause = .tooLong then .unexpectedEnd else e.cause }

/-- Only the error for encodings that are too long depends on what follows. -/
theorem DecodeError.cutOff_eq_iff {e : DecodeError} : e.cutOff = e ↔ e.cause ≠ .tooLong := by
  obtain ⟨rip, bytes, cause⟩ := e
  cases cause <;> simp [cutOff]

/-- **Windows.** Of the fifteen bytes that decoding looks at, it cannot tell whether there are more. -/
theorem decode_take_maxSize (rip : UInt64) (bs : List UInt8) :
    decode rip (bs.take Encoding.maxSize) = (decode rip bs).mapError DecodeError.cutOff := by
  obtain hmissing | ⟨used, s, result, rfl, hlen, hreads, -⟩ := missing_or_reads bs
  · have hshort : (bs.take Encoding.maxSize).length ≤ Encoding.maxSize := List.length_take_le _ _
    have hagain : Reader.operation.parse ((bs.take Encoding.maxSize).take Encoding.maxSize) = none := by
      rw [List.take_of_length_le hshort]
      exact hmissing
    rw [decode_of_missing rip hmissing, decode_of_missing rip hagain, if_pos hshort,
      Encoding.ofBytes_take]
    split <;> rfl
  · -- the window holds all bytes of an instruction or of a refused encoding
    have hwindow : (used ++ s).take Encoding.maxSize =
        used ++ s.take (Encoding.maxSize - used.length) := by
      rw [List.take_append, List.take_of_length_le hlen]
    rw [hwindow, decode_of_reads rip hreads hlen, decode_of_reads rip hreads hlen]
    cases result with
    | ok o => rfl
    | error refusal => cases refusal <;> rfl

/-! ### Fetched instructions -/

/-- **Fetched instructions.** Where no routine is registered and code begins, there is one longest run of
    executable bytes, and what is fetched is what it decodes to: the same instruction, or the same error at the
    same address with the same bytes.  The one exception is the cause of an error: where the code is found to
    be too long for an instruction, the fetch says that it ends too early, so the two agree if and only if the
    code is not too long. -/
theorem fetchInstruction_codeRun {m : Machine Memory} (h : m.bus.Reachable) {table : IntrinsicTable}
    {rip : UInt64} (hroutine : table.get? rip = none)
    (hfirst : m.bus.Permits (·.execute) rip.toNat) :
    ∃ code, m.bus.IsCodeRun rip.toNat code ∧
      (∀ other, m.bus.IsCodeRun rip.toNat other → other = code) ∧
      outcome (Exec.fetchInstruction table rip) m =
        ((decode rip code).mapError fun e => .decode e.cutOff, m) ∧
      (outcome (Exec.fetchInstruction table rip) m = ((decode rip code).mapError .decode, m) ↔
        ∀ e, decode rip code = .error e → e.cause ≠ .tooLong) := by
  obtain ⟨code, hrun⟩ := m.bus.exists_isCodeRun rip.toNat
  obtain ⟨bytes, hfetch, hbytes⟩ :=
    Memory.exists_fetch_of_isCodeRun h.wellFormed hrun hfirst (n := Encoding.maxSize) (by decide)
  -- what is handed to the decoder is the run, cut off at the longest encoding
  have hfetched : outcome (Exec.fetchInstruction table rip) m =
      ((decode rip code).mapError fun e => .decode e.cutOff, m) := by
    rw [Exec.outcome_fetchInstruction, Memory.instructionAt, hroutine, hfetch]
    simp only [hbytes, decode_take_maxSize]
    cases decode rip code <;> rfl
  refine ⟨code, hrun, fun _ => hrun.unique, hfetched, ?_⟩
  rw [hfetched]
  cases decode rip code with
  | ok i => simp [Except.mapError]
  | error e => simp [Except.mapError, DecodeError.cutOff_eq_iff]

/-- Sixteen executable prefixes, and nothing behind them. -/
def Memory.prefixFlood : Memory :=
  (empty {}).afterCalls
    [.map ⟨0x1000, 0x1010, .readExecute, 0, "code"⟩ (packed (List.replicate 16 0x66))]

/-- All sixteen bytes may be executed, and they are too long for an instruction.  The fetch says that the code
    ends after fifteen. -/
theorem fetchInstruction_codeRun_prefixFlood :
    Memory.prefixFlood.Reachable ∧
      Memory.prefixFlood.IsCodeRun 0x1000 (List.replicate 16 0x66) ∧
      decode 0x1000 (List.replicate 16 0x66) =
        .error ⟨0x1000, .ofBytes (List.replicate 16 0x66), .tooLong⟩ ∧
      (outcome (Exec.fetchInstruction .empty 0x1000) ⟨.initial, Memory.prefixFlood⟩).1 =
        .error (.decode ⟨0x1000, .ofBytes (List.replicate 16 0x66), .unexpectedEnd⟩) := by
  have h : Memory.prefixFlood.Reachable := ⟨_, _, rfl⟩
  have hview : ∀ i < 16, Memory.prefixFlood.view? (0x1000 + i) = some (0x66, .readExecute) := by
    decide +kernel
  have hrun : Memory.prefixFlood.IsCodeRun 0x1000 (List.replicate 16 0x66) := by
    refine ⟨fun i hi => ⟨.readExecute, ?_, rfl⟩, ?_⟩
    · rw [List.getElem_replicate]
      exact hview i (by simpa using hi)
    · rintro ⟨c, hcell, -⟩
      have hbehind : Memory.prefixFlood.view? 0x1010 = none := by decide +kernel
      exact absurd (hbehind.symm.trans hcell) (by simp)
  have hlong : decode 0x1000 (List.replicate 16 0x66) =
      .error ⟨0x1000, .ofBytes (List.replicate 16 0x66), .tooLong⟩ := by rfl
  have hroutine : IntrinsicTable.empty.get? 0x1000 = none := rfl
  obtain ⟨code, -, hunique, hfetched, -⟩ := fetchInstruction_codeRun
    (m := ⟨.initial, Memory.prefixFlood⟩) h hroutine ⟨_, hview 0 (by decide), rfl⟩
  obtain rfl := hunique _ hrun
  refine ⟨h, hrun, hlong, ?_⟩
  rw [hfetched, hlong]
  rfl

end Amd64
