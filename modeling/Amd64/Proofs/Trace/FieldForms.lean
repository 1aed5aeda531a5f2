import Amd64.Proofs.Trace.Payload

namespace Amd64

/-!
# Forms of fields

A payload is read field by field, and the first field that cannot be read decides what becomes of it. Here the
fields are data, so that this is said without a reader.

* `FieldForm`, `RecordKind.fields` — the forms of fields, and the fields of each kind of record;
* `Decides`                        — what the fields of a payload decide, from a position on;
* `Decides.unique`                 — they decide one thing;
* `PayloadReader.Follows`          — a reader finds what some fields decide, where the payload is all there;
* `PayloadReader.Follows.bind`, `PayloadReader.follows_checked`, … — readers that are put together;
* `Record.follows_read`            — readers of records follow the fields of their kind.
-/

/-- The form of a field: a number, or a number and as many bytes as it says. -/
inductive FieldForm where
  | word
  | wide
  | eventSize
  | eventDirection
  /-- A number of vector registers, which are fields of their own. -/
  | vectorCount
  | array
  | string
deriving DecidableEq

namespace FieldForm

/-- Number of bytes of the number. -/
def headSize : FieldForm → Nat
  | word => 8
  | wide => 16
  | eventSize => 1
  | eventDirection => 1
  | vectorCount => 4
  | array => 4
  | string => 2

/-- Number of bytes behind the number `n`. -/
def bodySize (n : Nat) : FieldForm → Nat
  | array => n
  | string => n
  | _ => 0

/-- What is wrong with the number `n` and the bytes behind it. -/
def problem? (n : Nat) (body : List UInt8) : FieldForm → Option TraceError
  | eventSize => if n ∈ [1, 2, 4, 8, 16] then none else some (.corrupt .eventSize)
  | eventDirection => if n ≤ 1 then none else some (.corrupt .eventDirection)
  | vectorCount => if n ≤ Snapshot.maxVectors then none else some (.corrupt .manyVectors)
  | string =>
    match Field.decodeString body with
    | .ok _ => none
    | .error e => some e
  | _ => none

/-- The fields that the number `n` announces. A vector register has eight words. -/
def following (n : Nat) : FieldForm → List FieldForm
  | vectorCount => List.replicate (8 * n) word
  | _ => []

end FieldForm

namespace RecordKind

/-- The fields of registers. -/
def snapshotFields : List FieldForm :=
  List.replicate 20 .word ++ [.vectorCount]

/-- The fields of records of a kind. -/
def fields : RecordKind → List FieldForm
  | cpuState => snapshotFields
  | step => [.word, .word, .array, .string] ++ snapshotFields
  | memoryEvent => [.word, .eventSize, .eventDirection, .wide]
  | location => [.string, .string, .word, .word]
  | systemLog => [.word, .word, .string]
  | endOfTrace => []

end RecordKind

/-- What the fields of a payload decide. -/
inductive Verdict where
  /-- A field ends at `stop`, and the payload does before. -/
  | overrun (stop : Nat)
  | malformed (error : TraceError)
  /-- All fields can be read, and they end at `used`. -/
  | parsed (used : Nat)
deriving DecidableEq

/-- The number in the `n` bytes of the payload from `o` on. -/
def numberAt (payload : List UInt8) (o n : Nat) : Nat :=
  LittleEndian.value ((payload.drop o).take n)

/-- Only strings and the values of numbers can be wrong. -/
theorem FieldForm.problem?_cases {f : FieldForm} {n : Nat} {bs : List UInt8} {e : TraceError}
    (h : f.problem? n bs = some e) : (∃ problem, e = .corrupt problem) ∨ ∃ validUpTo, e = .utf8 validUpTo := by
  have hchecked : ∀ {c : Prop} [Decidable c] {problem : FieldProblem},
      (if c then none else some (TraceError.corrupt problem)) = some e → ∃ problem, e = .corrupt problem := by
    intro c _ problem h
    split at h
    · cases h
    · exact ⟨problem, (Option.some.inj h).symm⟩
  cases f with
  | eventSize | eventDirection | vectorCount => exact .inl (hchecked h)
  | string =>
    rw [problem?, Field.decodeString] at h
    split at h
    · cases h
    · next hdecode =>
      split at hdecode
      · cases hdecode
      · cases hdecode
        exact .inr ⟨_, (Option.some.inj h).symm⟩
  | word | wide | array => cases h

/-- What fields decide that lie in the payload from `o` on. -/
inductive Decides (payload : List UInt8) : List FieldForm → Nat → Verdict → Prop where
  | parsed {o : Nat} : Decides payload [] o (.parsed o)
  | head {f : FieldForm} {fs : List FieldForm} {o : Nat} (outside : payload.length < o + f.headSize) :
      Decides payload (f :: fs) o (.overrun (o + f.headSize))
  | body {f : FieldForm} {fs : List FieldForm} {o stop : Nat} (inside : o + f.headSize ≤ payload.length)
      (stops : stop = o + f.headSize + f.bodySize (numberAt payload o f.headSize))
      (outside : payload.length < stop) : Decides payload (f :: fs) o (.overrun stop)
  | malformed {f : FieldForm} {fs : List FieldForm} {o n : Nat} {e : TraceError}
      (number : n = numberAt payload o f.headSize)
      (inside : o + f.headSize + f.bodySize n ≤ payload.length)
      (problem : f.problem? n ((payload.drop (o + f.headSize)).take (f.bodySize n)) = some e) :
      Decides payload (f :: fs) o (.malformed e)
  | next {f : FieldForm} {fs : List FieldForm} {o n : Nat} {v : Verdict}
      (number : n = numberAt payload o f.headSize)
      (inside : o + f.headSize + f.bodySize n ≤ payload.length)
      (fine : f.problem? n ((payload.drop (o + f.headSize)).take (f.bodySize n)) = none)
      (rest : Decides payload (f.following n ++ fs) (o + f.headSize + f.bodySize n) v) :
      Decides payload (f :: fs) o v

namespace Decides

variable {payload : List UInt8} {fs : List FieldForm} {o : Nat} {v w : Verdict}

/-- The first field that cannot be read is one field. -/
theorem unique (hv : Decides payload fs o v) (hw : Decides payload fs o w) : v = w := by
  -- by induction on the first decision; each rule excludes the others by a comparison of offsets or by the field that
  -- is read
  induction hv generalizing w with
  | parsed => cases hw; rfl
  | head outside =>
    cases hw with
    | head _ => rfl
    | body inside _ _ => omega
    | malformed _ inside _ => omega
    | next _ inside _ _ => omega
  | body inside stops outside =>
    cases hw with
    | head h => omega
    | body _ stops' _ => rw [stops, stops']
    | malformed number inside' _ => subst number; omega
    | next number inside' _ _ => subst number; omega
  | malformed number inside problem =>
    cases hw with
    | head h => omega
    | body _ stops outside => subst number; omega
    | malformed number' _ problem' =>
      subst number number'
      rw [problem] at problem'
      rw [Option.some.inj problem']
    | next number' _ fine _ =>
      subst number number'
      rw [problem] at fine
      cases fine
  | next number inside fine rest ih =>
    cases hw with
    | head h => omega
    | body _ stops outside => subst number; omega
    | malformed number' _ problem' =>
      subst number number'
      rw [fine] at problem'
      cases problem'
    | next number' _ _ rest' =>
      subst number number'
      exact ih rest'

/-- An overrun ends behind the payload. -/
theorem lt_of_overrun {stop : Nat} (h : Decides payload fs o (.overrun stop)) : payload.length < stop := by
  generalize hv : Verdict.overrun stop = v at h
  induction h with
  | parsed => cases hv
  | head outside => cases hv; exact outside
  | body inside stops outside => cases hv; exact outside
  | malformed _ _ _ => cases hv
  | next _ _ _ _ ih => exact ih hv

/-- A field that is malformed is corrupt or not a string. -/
theorem error_of_malformed {e : TraceError} (h : Decides payload fs o (.malformed e)) :
    (∃ problem, e = .corrupt problem) ∨ ∃ validUpTo, e = .utf8 validUpTo := by
  generalize hv : Verdict.malformed e = v at h
  induction h with
  | parsed => cases hv
  | head _ => cases hv
  | body _ _ _ => cases hv
  | malformed _ _ problem => cases hv; exact FieldForm.problem?_cases problem
  | next _ _ _ _ ih => exact ih hv

end Decides

/-! ### Readers -/

/-- The stream in front of position `o` of a payload that is all there. -/
def PayloadState.at (payload tail : List UInt8) (o : Nat) : PayloadState :=
  ⟨payload.drop o ++ tail, payload.length - o, o⟩

namespace PayloadReader

/-- How a reader may end that starts at `o` and finds what the fields `fs` decide, with other fields `gs`
    behind them. -/
inductive Finds {α : Type} (payload tail : List UInt8) (fs gs : List FieldForm) (o : Nat) :
    Except PayloadError α × PayloadState → Prop where
  /-- The fields in front decide nothing; those behind do. -/
  | passed {v : α} {o' : Nat} (inside : o' ≤ payload.length)
      (decides : ∀ w, Decides payload gs o' w → Decides payload (fs ++ gs) o w) :
      Finds payload tail fs gs o (.ok v, .at payload tail o')
  | overrun {stop : Nat} {q : PayloadState} (decides : Decides payload (fs ++ gs) o (.overrun stop)) :
      Finds payload tail fs gs o (.error (.overrun stop), q)
  | failed {e : TraceError} {q : PayloadState} (decides : Decides payload (fs ++ gs) o (.malformed e)) :
      Finds payload tail fs gs o (.error (.failed e), q)

/-- The reader finds what the fields decide. -/
def Follows {α : Type} (x : PayloadReader α) (fs : List FieldForm) : Prop :=
  ∀ (payload tail : List UInt8) (gs : List FieldForm) (o : Nat), o ≤ payload.length →
    Finds payload tail fs gs o (outcome x (.at payload tail o))

variable {α β : Type} {x : PayloadReader α} {fs gs : List FieldForm}

theorem follows_pure (v : α) : Follows (pure v) [] :=
  fun _ _ _ _ ho => .passed ho fun _ h => h

/-- Fields one behind the other. -/
theorem Follows.bind {f : α → PayloadReader β} (hx : Follows x fs) (hf : ∀ v, Follows (f v) gs) :
    Follows (x >>= f) (fs ++ gs) := by
  intro payload tail hs o ho
  have hfirst := hx payload tail (gs ++ hs) o ho
  rw [outcome_bind]
  generalize outcome x (.at payload tail o) = first at hfirst ⊢
  cases hfirst with
  | overrun decides => exact .overrun (by rwa [List.append_assoc])
  | failed decides => exact .failed (by rwa [List.append_assoc])
  | @passed v o' inside decides =>
    have hsecond := hf v payload tail hs o' inside
    show Finds payload tail (fs ++ gs) hs o (outcome (f v) (.at payload tail o'))
    generalize outcome (f v) (.at payload tail o') = second at hsecond ⊢
    cases hsecond with
    | overrun decides' => exact .overrun (by rw [List.append_assoc]; exact decides _ decides')
    | failed decides' => exact .failed (by rw [List.append_assoc]; exact decides _ decides')
    | passed inside' decides' =>
      refine .passed inside' fun w h => ?_
      rw [List.append_assoc]
      exact decides w (decides' w h)

/-- What is made of the values of fields does not matter. -/
theorem Follows.map (hx : Follows x fs) (g : α → β) : Follows (do return g (← x)) fs := by
  rw [← List.append_nil fs]
  exact hx.bind fun v => follows_pure (g v)

/-! ### Numbers and bytes behind them -/

section
variable {payload tail : List UInt8} {o n : Nat}

/-- Bytes of the payload are taken. -/
theorem outcome_take_at (h : o + n ≤ payload.length) :
    outcome (take n) (.at payload tail o) = (.ok ((payload.drop o).take n), .at payload tail (o + n)) := by
  have hlength : n ≤ (payload.drop o).length := by
    rw [List.length_drop]
    omega
  have hrest : n ≤ (payload.drop o ++ tail).length := by
    rw [List.length_append]
    omega
  rw [outcome_take_of_le (p := .at payload tail o) (show n ≤ payload.length - o by omega) hrest]
  simp only [PayloadState.at, List.take_append_of_le_length hlength, List.drop_append_of_le_length hlength,
    List.drop_drop, Nat.sub_sub]

/-- Behind the end of the payload nothing is taken, though the stream goes on. -/
theorem outcome_take_at_of_lt (tail : List UInt8) (ho : o ≤ payload.length) (h : payload.length < o + n) :
    ∃ q, outcome (take n) (.at payload tail o) = (.error (.overrun (o + n)), q) := by
  have hmin : min n (payload.length - o) = payload.length - o := by omega
  have hlength : ((payload.drop o ++ tail).take (payload.length - o)).length = payload.length - o := by
    rw [List.length_take, List.length_append, List.length_drop]
    omega
  refine ⟨(outcome (take n) (.at payload tail o)).2, Prod.ext ?_ rfl⟩
  simp only [outcome_take, PayloadState.at, hmin, hlength]
  rw [if_neg (by omega), if_pos (Nat.sub_self _)]

/-- A number of the payload is read. -/
theorem outcome_number_at (h : o + n ≤ payload.length) :
    outcome (number n) (.at payload tail o) = (.ok (numberAt payload o n), .at payload tail (o + n)) := by
  rw [number, outcome_bind, outcome_take_at h]
  rfl

/-- A number that is not all in the payload runs over. -/
theorem outcome_number_at_of_lt (tail : List UInt8) (ho : o ≤ payload.length) (h : payload.length < o + n) :
    ∃ q, outcome (number n) (.at payload tail o) = (.error (.overrun (o + n)), q) := by
  obtain ⟨q, htake⟩ := outcome_take_at_of_lt tail ho h
  exact ⟨q, by rw [number, outcome_bind, htake]⟩

/-- The bytes of an array are taken. -/
theorem outcome_body_at (h : o + n ≤ payload.length) :
    outcome (body n) (.at payload tail o) = (.ok ((payload.drop o).take n), .at payload tail (o + n)) := by
  have hensure : ¬payload.length - o < n := by omega
  rw [body, ensure, outcome_bind, outcome_bind, outcome_get]
  simp only [PayloadState.at, hensure, if_false, outcome_pure]
  obtain rfl | hn := Nat.eq_zero_or_pos n
  · rfl
  · rw [if_neg hn.ne']
    exact outcome_take_at h

/-- Bytes that are not all in the payload run over before any is taken. -/
theorem outcome_body_at_of_lt (ho : o ≤ payload.length) (h : payload.length < o + n) :
    outcome (body n) (.at payload tail o) = (.error (.overrun (o + n)), .at payload tail o) := by
  have hensure : payload.length - o < n := by omega
  rw [body, ensure, outcome_bind, outcome_bind, outcome_get]
  simp only [PayloadState.at, hensure, if_true, outcome_throw]

end

/-- A field whose number is inside the payload, or ends it. -/
theorem follows_head {f : FieldForm} {g : Nat → PayloadReader α}
    (hg : ∀ payload tail gs o, o + f.headSize ≤ payload.length →
      Finds payload tail (f :: fs) gs o
        (outcome (g (numberAt payload o f.headSize)) (.at payload tail (o + f.headSize)))) :
    Follows (do g (← number f.headSize)) (f :: fs) := by
  intro payload tail gs o ho
  rw [outcome_bind]
  by_cases hin : o + f.headSize ≤ payload.length
  · rw [outcome_number_at hin]
    exact hg payload tail gs o hin
  · obtain ⟨q, hnumber⟩ := outcome_number_at_of_lt tail ho (Nat.not_le.mp hin)
    rw [hnumber]
    exact .overrun (.head (Nat.not_le.mp hin))

/-- A field that is a number, checked before the fields that it announces. -/
theorem follows_checked {f : FieldForm} {g : Nat → PayloadReader α} (hsize : ∀ n, f.bodySize n = 0)
    (hbad : ∀ n e, f.problem? n [] = some e → g n = throw (.failed e))
    (hgood : ∀ n, f.problem? n [] = none → Follows (g n) (f.following n ++ fs)) :
    Follows (do g (← number f.headSize)) (f :: fs) := by
  refine follows_head fun payload tail gs o hin => ?_
  -- a field without a body is its head alone
  have hinside : o + f.headSize + f.bodySize (numberAt payload o f.headSize) ≤ payload.length := by
    rwa [hsize]
  have hempty : (payload.drop (o + f.headSize)).take (f.bodySize (numberAt payload o f.headSize)) = [] := by
    rw [hsize, List.take_zero]
  cases hproblem : f.problem? (numberAt payload o f.headSize) [] with
  | some e =>
    rw [hbad _ e hproblem, outcome_throw]
    exact .failed (.malformed rfl hinside (by rwa [hempty]))
  | none =>
    -- what decides the fields behind decides the whole, since the head is in order
    have hnext : ∀ w, Decides payload ((f.following (numberAt payload o f.headSize) ++ fs) ++ gs)
        (o + f.headSize) w → Decides payload (f :: fs ++ gs) o w := by
      intro w h
      refine .next rfl hinside (by rwa [hempty]) ?_
      rw [hsize, Nat.add_zero]
      rwa [List.append_assoc] at h
    have hrest := hgood _ hproblem payload tail gs (o + f.headSize) hin
    generalize outcome (g (numberAt payload o f.headSize)) _ = result at hrest ⊢
    cases hrest with
    | passed inside decides => exact .passed inside fun w h => hnext w (decides w h)
    | overrun decides => exact .overrun (hnext _ decides)
    | failed decides => exact .failed (hnext _ decides)

/-- A field that is a number of which some values are corrupt. -/
theorem follows_valid {f : FieldForm} {g : Nat → PayloadReader α} {c : Nat → Prop} [DecidablePred c]
    {problem : FieldProblem} (hsize : ∀ n, f.bodySize n = 0)
    (hproblem : ∀ n, f.problem? n [] = if c n then none else some (.corrupt problem))
    (hbad : ∀ n, ¬c n → g n = throw (.failed (.corrupt problem)))
    (hgood : ∀ n, c n → Follows (g n) (f.following n ++ fs)) :
    Follows (do g (← number f.headSize)) (f :: fs) := by
  refine follows_checked hsize (fun n e h => ?_) fun n h => ?_
  · rw [hproblem] at h
    by_cases hn : c n
    · rw [if_pos hn] at h
      cases h
    · rw [if_neg hn] at h
      rw [hbad n hn, Option.some.inj h]
  · rw [hproblem] at h
    by_cases hn : c n
    · exact hgood n hn
    · rw [if_neg hn] at h
      cases h

/-- A field that is a number and as many bytes, which are checked when all of them were read. -/
theorem follows_counted {f : FieldForm} {g : List UInt8 → PayloadReader α} (hsize : ∀ n, f.bodySize n = n)
    (hnone : ∀ n, f.following n = [])
    (hbad : ∀ n bs e, f.problem? n bs = some e → g bs = throw (.failed e))
    (hgood : ∀ n bs, f.problem? n bs = none → ∃ v, g bs = pure v) :
    Follows (do g (← body (← number f.headSize))) [f] := by
  refine follows_head fun payload tail gs o hin => ?_
  rw [outcome_bind]
  have hstop : o + f.headSize + f.bodySize (numberAt payload o f.headSize) =
      o + f.headSize + numberAt payload o f.headSize := by rw [hsize]
  -- either the counted bytes are there, and the field judges them, or it ends outside the payload
  by_cases hbody : o + f.headSize + numberAt payload o f.headSize ≤ payload.length
  · rw [outcome_body_at hbody]
    show Finds payload tail [f] gs o (outcome (g _) _)
    cases hproblem : f.problem? (numberAt payload o f.headSize)
        ((payload.drop (o + f.headSize)).take (numberAt payload o f.headSize)) with
    | some e =>
      rw [hbad _ _ e hproblem, outcome_throw]
      exact .failed (.malformed rfl (by omega) (by rwa [hsize]))
    | none =>
      obtain ⟨v, hv⟩ := hgood _ _ hproblem
      rw [hv, outcome_pure]
      refine .passed hbody fun w h => .next rfl (by omega) (by rwa [hsize]) ?_
      rwa [hnone, hsize]
  · rw [outcome_body_at_of_lt hin (Nat.not_le.mp hbody)]
    exact .overrun (.body hin hstop.symm (Nat.not_le.mp hbody))

/-! ### Fields -/

/-- A word is one field. -/
theorem follows_word : Follows word [.word] :=
  follows_checked (f := .word) (fun _ => rfl) nofun fun n _ => follows_pure (UInt64.ofNat n)

/-- Words are as many fields. -/
theorem follows_words (n : Nat) : Follows (words n) (List.replicate n .word) := by
  induction n with
  | zero => exact follows_pure #v[]
  | succ n ih =>
    rw [List.replicate_succ']
    exact ih.bind fun ws => follows_word.map ws.push

/-- Each vector register is eight fields. -/
theorem follows_vectors (n : Nat) : Follows (vectors n) (List.replicate (8 * n) .word) := by
  induction n with
  | zero => exact follows_pure []
  | succ n ih =>
    have hwords : 8 * (n + 1) = 8 + 8 * n := Nat.mul_succ 8 n |>.trans (Nat.add_comm _ _)
    rw [hwords, ← List.replicate_append_replicate]
    exact (follows_words 8).bind fun ws => ih.map (ws :: ·)

/-- An array is one field. -/
theorem follows_array : Follows array [.array] := by
  have hcounted := follows_counted (f := .array) (g := fun bs => (pure bs : PayloadReader (List UInt8)))
    (fun _ => rfl) (fun _ => rfl) nofun fun _ bs _ => ⟨bs, rfl⟩
  simp only [bind_pure] at hcounted
  exact hcounted

/-- A string is one field. -/
theorem follows_string : Follows string [.string] := by
  refine follows_counted (f := .string) (fun _ => rfl) (fun _ => rfl) (fun n bs e h => ?_) fun n bs h => ?_
  · cases hdecode : Field.decodeString bs with
    | ok s => simp [FieldForm.problem?, hdecode] at h
    | error e' =>
      -- no bytes are a string, so these are some
      have hsome : bs.isEmpty = false := by
        cases bs with
        | nil =>
          have hempty : Field.decodeString [] = .ok "" := Field.decodeString_eq_ok_iff.mpr rfl
          rw [hempty] at hdecode
          cases hdecode
        | cons b bs => rfl
      simp only [FieldForm.problem?, hdecode, Option.some.injEq] at h
      simp [hsome, h]
  · cases hdecode : Field.decodeString bs with
    | error e => simp [FieldForm.problem?, hdecode] at h
    | ok s =>
      cases bs with
      | nil => exact ⟨none, rfl⟩
      | cons b bs => exact ⟨some s, by simp⟩

/-- Registers: the number of vector registers announces their words. -/
theorem follows_snapshot : Follows snapshot RecordKind.snapshotFields := by
  refine follows_word.bind fun rip => follows_word.bind fun rflags => (follows_words 16).bind fun gprs =>
    follows_word.bind fun fsBase => follows_word.bind fun gsBase =>
    follows_valid (f := .vectorCount) (fun _ => rfl) (fun _ => rfl) (fun n hn => ?_) fun n hn => ?_
  · rw [if_pos (Nat.not_le.mp hn)]
    rfl
  · rw [if_neg (Nat.not_lt.mpr hn), FieldForm.following, List.append_nil]
    exact (follows_vectors n).map (Snapshot.mk rip rflags gprs fsBase gsBase)

/-- The fields of a step. -/
theorem follows_step : Follows step (RecordKind.fields .step) :=
  follows_word.bind fun index => follows_word.bind fun pc => follows_array.bind fun code =>
    follows_string.bind fun disassembly =>
    follows_snapshot.map (StepRecord.mk index pc code disassembly)

/-- The fields of an access. -/
theorem follows_memoryEvent : Follows memoryEvent (RecordKind.fields .memoryEvent) := by
  have hcontains : ∀ n : Nat, [1, 2, 4, 8, 16].contains n = true ↔ n ∈ [1, 2, 4, 8, 16] :=
    fun n => List.contains_iff_mem
  refine follows_word.bind fun address =>
    follows_valid (f := .eventSize) (fun _ => rfl) (fun _ => rfl) (fun size hsize => ?_) fun size hsize => ?_
  · rw [if_neg (mt (hcontains size).mp hsize)]
    rfl
  · rw [if_pos ((hcontains size).mpr hsize)]
    refine follows_valid (f := .eventDirection) (fun _ => rfl) (fun _ => rfl) (fun direction hdirection => ?_)
      fun direction hdirection => ?_
    · rw [if_pos (Nat.not_le.mp hdirection)]
      rfl
    · rw [if_neg (Nat.not_lt.mpr hdirection)]
      exact follows_checked (f := .wide) (fun _ => rfl) nofun fun n _ => follows_pure _

/-- The fields of a location. -/
theorem follows_location : Follows location (RecordKind.fields .location) :=
  follows_string.bind fun filename => follows_string.bind fun symbol => follows_word.bind fun offset =>
    follows_word.map (LocationRecord.mk filename symbol offset)

/-- The fields of a message. -/
theorem follows_systemLog : Follows systemLog (RecordKind.fields .systemLog) :=
  follows_word.bind fun pc => follows_word.bind fun thread =>
    follows_string.map fun s : Option String => LogRecord.mk pc thread (s.getD "")

end PayloadReader

/-- **Payloads.** The reader of a record finds what the fields of its kind decide. -/
theorem Record.follows_read (kind : RecordKind) : PayloadReader.Follows (Record.read kind) kind.fields := by
  have hmap : ∀ {α : Type} {x : PayloadReader α} {fs : List FieldForm} (record : α → Record),
      PayloadReader.Follows x fs → PayloadReader.Follows (record <$> x) fs := by
    intro α x fs record h
    rw [map_eq_pure_bind]
    exact h.map record
  cases kind with
  | cpuState => exact hmap _ PayloadReader.follows_snapshot
  | step => exact hmap _ PayloadReader.follows_step
  | memoryEvent => exact hmap _ PayloadReader.follows_memoryEvent
  | location => exact hmap _ PayloadReader.follows_location
  | systemLog => exact hmap _ PayloadReader.follows_systemLog
  | endOfTrace => exact PayloadReader.follows_pure endOfTrace

end Amd64
