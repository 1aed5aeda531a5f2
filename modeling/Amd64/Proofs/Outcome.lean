namespace Amd64

/-!
# Outcomes

Operations on an address space, accesses through a bus and the execution of instructions all change a state
and may fail.

* `outcome`       — what such a computation yields, and the state that it leaves behind;
* `outcome_mk`, `run_run` — outcomes of computations that are given by what they do to states;
* `outcome_bind`, `outcome_tryCatch`, … — the outcomes of computations that are put together;
* `outcome_bind_eq_ok_iff`, `bind_eq_ok_iff` — success of computations one after the other;
* `run_bind_run`, `run_modify_bind` — what goes on with an outcome, be it a failure or not, and with a
  changed state.
-/

variable {ε σ α β : Type}

/-- What a computation on `s` yields, and the state that it leaves behind. -/
def outcome (x : ExceptT ε (StateM σ) α) (s : σ) : Except ε α × σ :=
  x.run.run s

variable (s : σ)

/-- A computation that is given as a function of the state. -/
theorem outcome_mk (f : σ → Except ε α × σ) :
    outcome (ExceptT.mk f : ExceptT ε (StateM σ) α) s = f s := rfl

/-- Where a computation is run outright, its outcome is meant. -/
theorem run_run (x : ExceptT ε (StateM σ) α) : x.run.run s = outcome x s := rfl

@[simp] theorem outcome_pure (v : α) :
    outcome (pure v : ExceptT ε (StateM σ) α) s = (.ok v, s) := rfl

@[simp] theorem outcome_throw (e : ε) :
    outcome (throw e : ExceptT ε (StateM σ) α) s = (.error e, s) := rfl

@[simp] theorem outcome_get : outcome (get : ExceptT ε (StateM σ) σ) s = (.ok s, s) := rfl

/-- The second part begins with the state that the first one leaves. -/
theorem outcome_bind (x : ExceptT ε (StateM σ) α) (f : α → ExceptT ε (StateM σ) β) :
    outcome (x >>= f) s =
      match outcome x s with
      | (.ok v, s') => outcome (f v) s'
      | (.error e, s') => (.error e, s') := by
  show (ExceptT.bindCont f (outcome x s).1 : StateM σ (Except ε β)).run (outcome x s).2 = _
  rcases outcome x s with ⟨_ | _, _⟩ <;> rfl

/-- A sequence succeeds if both parts do. -/
theorem outcome_bind_eq_ok_iff {s r : σ} {x : ExceptT ε (StateM σ) α}
    {f : α → ExceptT ε (StateM σ) β} {w : β} :
    outcome (x >>= f) s = (.ok w, r) ↔
      ∃ v q, outcome x s = (.ok v, q) ∧ outcome (f v) q = (.ok w, r) := by
  rw [outcome_bind]
  constructor
  · intro h
    generalize hx : outcome x s = o at h
    obtain ⟨e | v, q⟩ := o
    · cases h
    · exact ⟨v, q, rfl, h⟩
  · rintro ⟨v, q, hx, hf⟩
    rw [hx]
    exact hf

/-- A sequence of results succeeds if both do. -/
theorem bind_eq_ok_iff {x : Except ε α} {f : α → Except ε β} {w : β} :
    x >>= f = .ok w ↔ ∃ v, x = .ok v ∧ f v = .ok w := by
  constructor
  · intro h
    cases x with
    | error e => cases h
    | ok v => exact ⟨v, rfl, h⟩
  · rintro ⟨v, rfl, hf⟩
    exact hf

/-- A check succeeds if its condition holds. -/
theorem ite_ok_eq_ok_iff {c : Prop} [Decidable c] {v w : α} {e : ε} :
    (if c then Except.ok v else .error e) = .ok w ↔ c ∧ w = v := by
  split
  · next hc => simp [hc, eq_comm]
  · next hc => simp [hc]

/-- A function of the value does not look at the state. -/
theorem outcome_mapResult (f : α → β) (x : ExceptT ε (StateM σ) α) :
    outcome (f <$> x) s = ((outcome x s).1.map f, (outcome x s).2) := by
  rw [map_eq_pure_bind, outcome_bind]
  rcases outcome x s with ⟨_ | _, _⟩ <;> rfl

/-- Without its value a computation leaves the same state. -/
@[simp] theorem outcome_discard (x : ExceptT ε (StateM σ) α) :
    outcome (discard x) s = ((outcome x s).1.map fun _ => (), (outcome x s).2) :=
  outcome_mapResult s (fun _ => ()) x

/-- A handler begins with the state at the error. -/
theorem outcome_tryCatch (x : ExceptT ε (StateM σ) α) (handle : ε → ExceptT ε (StateM σ) α) :
    outcome (tryCatch x handle) s =
      match outcome x s with
      | (.ok v, s') => (.ok v, s')
      | (.error e, s') => outcome (handle e) s' := by
  show ((match (outcome x s).1 with
    | .ok v => pure (.ok v)
    | .error e => (handle e).run : StateM σ (Except ε α)).run (outcome x s).2) = _
  rcases outcome x s with ⟨_ | _, _⟩ <;> rfl

/-- A computation whose error is caught as a value. -/
theorem run_bind_run (x : ExceptT ε (StateM σ) α) (f : Except ε α → StateM σ β) :
    (x.run >>= f : StateM σ β).run s = (f (outcome x s).1).run (outcome x s).2 := rfl

/-- A change of the state, then the rest. -/
theorem run_modify_bind (g : σ → σ) (f : PUnit → StateM σ β) :
    (modify g >>= f : StateM σ β).run s = (f ⟨⟩).run (g s) := rfl

end Amd64
