import Amd64.Proofs.Trace.Payload

namespace Amd64

/-!
# Readers that stay in their payload

On a stream of any length a reader of fields takes bytes of its payload only, and where it reports an overrun,
the field would end behind the payload.

* `PayloadReader.Confined`                — this about a reader;
* `PayloadReader.Confined.bind`, `PayloadReader.confined_take`, … — readers that are put together;
* `Record.confined_read`                  — readers of records are confined.
-/

namespace PayloadState

/-- Where the payload ends does not move. -/
theorem Took.stop {p q : PayloadState} {bs : List UInt8} (h : p.Took bs q) :
    q.consumed + q.remaining = p.consumed + p.remaining := by
  rw [h.consumed, h.remaining, Nat.add_assoc]

end PayloadState

namespace PayloadReader

/-- The reader stays in its payload on any stream. Errors about sizes are about the payload as a whole, so a field
    does not fail with one, and an overrun is behind the end of the payload. -/
structure Confined {α : Type} (x : PayloadReader α) : Prop where
  took : ∀ p : PayloadState, ∃ bs, p.Took bs (outcome x p).2
  overrun : ∀ p stop, (outcome x p).1 = .error (.overrun stop) → p.consumed + p.remaining < stop
  mismatch : ∀ p tag declared actual,
    (outcome x p).1 ≠ .error (.failed (.sizeMismatch tag declared actual))

variable {α β : Type} {x y : PayloadReader α}

theorem confined_pure (v : α) : Confined (pure v) where
  took p := ⟨[], PayloadState.took_nil_iff.mpr rfl⟩
  overrun p stop h := by cases h
  mismatch p tag declared actual h := by cases h

/-- An error that is no mismatch of sizes takes no bytes. -/
theorem confined_throw {e : TraceError} (he : ∀ tag declared actual, e ≠ .sizeMismatch tag declared actual) :
    Confined (throw (.failed e) : PayloadReader α) where
  took p := ⟨[], PayloadState.took_nil_iff.mpr rfl⟩
  overrun p stop h := by cases h
  mismatch p tag declared actual h := by
    cases h
    exact he _ _ _ rfl

/-- Confined readers one after the other are confined. -/
theorem Confined.bind {f : α → PayloadReader β} (hx : Confined x) (hf : ∀ v, Confined (f v)) :
    Confined (x >>= f) where
  took p := by
    obtain ⟨bs, hfirst⟩ := hx.took p
    rw [outcome_bind]
    -- the second reader starts where the first one stopped, if it has not failed
    generalize outcome x p = first at hfirst ⊢
    obtain ⟨e | v, q⟩ := first
    · exact ⟨bs, hfirst⟩
    · obtain ⟨cs, hsecond⟩ := (hf v).took q
      exact ⟨bs ++ cs, hfirst.trans hsecond⟩
  overrun p stop h := by
    obtain ⟨bs, hfirst⟩ := hx.took p
    have hoverrun := hx.overrun p stop
    rw [outcome_bind] at h
    generalize outcome x p = first at hfirst hoverrun h
    obtain ⟨e | v, q⟩ := first
    · exact hoverrun (congrArg Except.error (Except.error.inj h))
    · rw [← hfirst.stop]
      exact (hf v).overrun q stop h
  mismatch p tag declared actual h := by
    have hmismatch := hx.mismatch p tag declared actual
    rw [outcome_bind] at h
    generalize outcome x p = first at hmismatch h
    obtain ⟨e | v, q⟩ := first
    · exact hmismatch (congrArg Except.error (Except.error.inj h))
    · exact (hf v).mismatch q tag declared actual h

theorem Confined.ite {c : Prop} [Decidable c] (hx : Confined x) (hy : Confined y) :
    Confined (if c then x else y) := by
  split
  · exact hx
  · exact hy

/-- A string of bytes is taken from what is declared, or all that is left is. -/
theorem confined_take (n : Nat) : Confined (take n) where
  took p := by
    rw [outcome_take]
    have hlength : (p.rest.take (min n p.remaining)).length ≤ p.remaining := by
      rw [List.length_take]
      omega
    exact ⟨p.rest.take (min n p.remaining), (List.take_append_drop _ _).symm, by simp only; omega, rfl⟩
  overrun p stop h := by
    rw [outcome_take] at h
    have hlength : (p.rest.take (min n p.remaining)).length ≤ n := by
      rw [List.length_take]
      omega
    simp only at h
    split at h
    · cases h
    · split at h
      · cases h
        omega
      · cases h
  mismatch p tag declared actual h := by
    rw [outcome_take] at h
    simp only at h
    split at h
    · cases h
    · split at h <;> cases h

/-- A check of the declared size takes no bytes. -/
theorem outcome_ensure (n : Nat) (p : PayloadState) :
    outcome (ensure n) p =
      (if p.remaining < n then .error (.overrun (p.consumed + n)) else .ok (), p) := by
  rw [ensure, outcome_bind, outcome_get]
  by_cases h : p.remaining < n
  · rw [if_pos h]
    simp only [if_pos h]
    rfl
  · rw [if_neg h]
    simp only [if_neg h]
    rfl

/-- A check of the declared size is confined. -/
theorem confined_ensure (n : Nat) : Confined (ensure n) where
  took p := ⟨[], PayloadState.took_nil_iff.mpr (by rw [outcome_ensure])⟩
  overrun p stop h := by
    rw [outcome_ensure] at h
    simp only at h
    split at h
    · cases h
      omega
    · cases h
  mismatch p tag declared actual h := by
    rw [outcome_ensure] at h
    simp only at h
    split at h <;> cases h

theorem confined_number (n : Nat) : Confined (number n) :=
  (confined_take n).bind fun _ => confined_pure _

theorem confined_word : Confined word :=
  (confined_number 8).bind fun _ => confined_pure _

/-- Words one behind the other are confined, by induction on their number. -/
theorem confined_words (n : Nat) : Confined (words n) := by
  induction n with
  | zero => exact confined_pure _
  | succ n ih => exact ih.bind fun _ => confined_word.bind fun _ => confined_pure _

/-- Vector registers are confined, by induction on their number. -/
theorem confined_vectors (n : Nat) : Confined (vectors n) := by
  induction n with
  | zero => exact confined_pure _
  | succ n ih => exact (confined_words 8).bind fun _ => ih.bind fun _ => confined_pure _

/-- Something corrupt takes no bytes. -/
theorem confined_corrupt (problem : FieldProblem) : Confined (corrupt problem : PayloadReader α) :=
  confined_throw nofun

/-- The bytes of an array are confined, since they are checked first. -/
theorem confined_body (n : Nat) : Confined (body n) :=
  (confined_ensure n).bind fun _ => (confined_pure _).ite (confined_take n)

theorem confined_array : Confined array :=
  (confined_number 4).bind confined_body

theorem confined_string : Confined string := by
  refine (confined_number 2).bind fun n => (confined_body n).bind fun bytes => (confined_pure _).ite ?_
  cases hdecode : Field.decodeString bytes with
  | ok s => exact confined_pure _
  | error e =>
    refine confined_throw fun tag declared actual he => ?_
    subst he
    rw [Field.decodeString] at hdecode
    split at hdecode <;> cases hdecode

theorem confined_snapshot : Confined snapshot :=
  confined_word.bind fun _ => confined_word.bind fun _ => (confined_words 16).bind fun _ =>
    confined_word.bind fun _ => confined_word.bind fun _ => (confined_number 4).bind fun count =>
    .ite ((confined_corrupt _).bind fun _ => (confined_vectors count).bind fun _ => confined_pure _)
      ((confined_vectors count).bind fun _ => confined_pure _)

theorem confined_step : Confined step :=
  confined_word.bind fun _ => confined_word.bind fun _ => confined_array.bind fun _ =>
    confined_string.bind fun _ => confined_snapshot.bind fun _ => confined_pure _

theorem confined_memoryEvent : Confined memoryEvent := by
  have hvalue : ∀ f : Nat → MemoryEvent, Confined (do return f (← number 16)) :=
    fun f => (confined_number 16).bind fun n => confined_pure (f n)
  have hdirection : ∀ f : Nat → Nat → MemoryEvent, Confined (do
      let direction ← number 1
      if 1 < direction then corrupt .eventDirection
      return f direction (← number 16)) := fun f =>
    (confined_number 1).bind fun direction =>
      .ite ((confined_corrupt _).bind fun _ => hvalue (f direction)) (hvalue (f direction))
  exact confined_word.bind fun address => (confined_number 1).bind fun size =>
    .ite (hdirection _) ((confined_corrupt _).bind fun _ => hdirection _)

theorem confined_location : Confined location :=
  confined_string.bind fun _ => confined_string.bind fun _ => confined_word.bind fun _ =>
    confined_word.bind fun _ => confined_pure _

theorem confined_systemLog : Confined systemLog :=
  confined_word.bind fun _ => confined_word.bind fun _ => confined_string.bind fun _ => confined_pure _

end PayloadReader

/-- The payload of every kind of record is confined. -/
theorem Record.confined_read (kind : RecordKind) : PayloadReader.Confined (Record.read kind) := by
  have hmap : ∀ {α : Type} {x : PayloadReader α} (record : α → Record), x.Confined →
      PayloadReader.Confined (record <$> x) := by
    intro α x record h
    rw [map_eq_pure_bind]
    exact h.bind fun _ => PayloadReader.confined_pure _
  cases kind with
  | cpuState => exact hmap _ PayloadReader.confined_snapshot
  | step => exact hmap _ PayloadReader.confined_step
  | memoryEvent => exact hmap _ PayloadReader.confined_memoryEvent
  | location => exact hmap _ PayloadReader.confined_location
  | systemLog => exact hmap _ PayloadReader.confined_systemLog
  | endOfTrace => exact PayloadReader.confined_pure _

end Amd64
