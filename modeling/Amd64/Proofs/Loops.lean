import Amd64.Proofs.Simulation.Basic

namespace Amd64

/-!
# Loops

A loop has no bound of its own. That it comes to its end, and after how many turns, is said about the loop that
is broken off where it goes on for longer.

* `Loop`, `Loop.within`   — a loop, and what becomes of it if it may complete so many turns;
* `Loop.TurnDoes`         — what a turn does: it fails, or is the last, or leaves less to do;
* `Loop.Ends`             — all turns do this, where an invariant holds;
* `Loop.Ends.exists_within` — then the loop has a result, by induction on what is left to do;
* `Loop.Ends.advances`    — and no turn leaves it where it was;
* `Loop.alike_within`     — loops with turns that run alike run alike;
* `Mirrors`, `Loop.Mirrored.within` — loops with turns that mirror each other do so too;
* `Completes`             — what may be broken off is not, and does what another computation does.
-/

/-- A loop on something, which goes on as long as this and the state say so. A turn yields what the next one
    works on, or what the loop ends with. -/
structure Loop (ε σ α : Type) where
  goesOn : α → σ → Bool
  turn : α → ExceptT ε (StateM σ) (ForInStep α)

namespace Loop

variable {ε σ α : Type}

/-- The loop from `a` on, of which at most so many turns may be completed. If there is none to go on with, it is not
    at its end. -/
def within (l : Loop ε σ α) : Nat → α → ExceptT ε (StateM σ) (Option α)
  | 0, a => do
    if l.goesOn a (← get) then
      -- the turn may still fail
      let _ ← l.turn a
      return none
    else return some a
  | n + 1, a => do
    if l.goesOn a (← get) then
      match ← l.turn a with
      | .yield b => within l n b
      | .done b => return some b
    else return some a

/-- The results of a turn from `a` on `s`. The loop then ends with what `result` admits, or there is less `left`
    to do and the rest of the loop has the same results. -/
inductive TurnDoes (inv : α → σ → Prop) (left : α → σ → Nat)
    (result : α → σ → Except ε α × σ → Prop) (a : α) (s : σ) :
    Except ε (ForInStep α) × σ → Prop where
  | fails {e : ε} {s' : σ} (ends : result a s (.error e, s')) : TurnDoes inv left result a s (.error e, s')
  | last {b : α} {s' : σ} (ends : result a s (.ok b, s')) (pos : 0 < left a s) :
    TurnDoes inv left result a s (.ok (.done b), s')
  | again {b : α} {s' : σ} (keeps : inv b s') (less : left b s' < left a s)
    (rest : ∀ r, result b s' r → result a s r) : TurnDoes inv left result a s (.ok (.yield b), s')

/-- What makes a loop come to its end. -/
structure Ends (l : Loop ε σ α) (inv : α → σ → Prop) (left : α → σ → Nat)
    (result : α → σ → Except ε α × σ → Prop) : Prop where
  stops : ∀ a s, inv a s → l.goesOn a s = false → result a s (.ok a, s)
  turns : ∀ a s, inv a s → l.goesOn a s = true → TurnDoes inv left result a s (outcome (l.turn a) s)

/-- Where the invariant holds, a turn after which the loop goes on leaves less to do. -/
def Advances (l : Loop ε σ α) (inv : α → σ → Prop) (left : α → σ → Nat) : Prop :=
  ∀ a s b s', inv a s → l.goesOn a s = true → outcome (l.turn a) s = (.ok (.yield b), s') →
    inv b s' ∧ left b s' < left a s

variable {l : Loop ε σ α} {inv : α → σ → Prop} {left : α → σ → Nat}
  {result : α → σ → Except ε α × σ → Prop} {a : α} {s : σ}

/-- A loop that ends leaves less to do with every turn. -/
theorem Ends.advances (h : l.Ends inv left result) : l.Advances inv left := by
  intro a s b s' hinv hgoesOn hturn
  have hdoes := h.turns a s hinv hgoesOn
  rw [hturn] at hdoes
  cases hdoes with
  | again keeps less rest => exact ⟨keeps, less⟩

/-- Without turns there is a result only at the end of the loop. -/
theorem outcome_within_zero (l : Loop ε σ α) (a : α) (s : σ) :
    outcome (l.within 0 a) s =
      if l.goesOn a s = true then
        match outcome (l.turn a) s with
        | (.ok _, s') => (.ok none, s')
        | (.error e, s') => (.error e, s')
      else (.ok (some a), s) := by
  simp only [within, outcome_bind, outcome_get]
  split
  · rw [outcome_bind]
    rcases outcome (l.turn a) s with ⟨_ | _, _⟩ <;> rfl
  · rfl

/-- One turn, then the loop with one turn less. -/
theorem outcome_within_succ (l : Loop ε σ α) (n : Nat) (a : α) (s : σ) :
    outcome (l.within (n + 1) a) s =
      if l.goesOn a s = true then
        match outcome (l.turn a) s with
        | (.ok (.yield b), s') => outcome (l.within n b) s'
        | (.ok (.done b), s') => (.ok (some b), s')
        | (.error e, s') => (.error e, s')
      else (.ok (some a), s) := by
  simp only [within, outcome_bind, outcome_get]
  split
  · rw [outcome_bind]
    rcases outcome (l.turn a) s with ⟨_ | _ | _, _⟩ <;> rfl
  · rfl

/-- A loop that is at its end has no more turns. -/
theorem outcome_within_of_stops (hstops : l.goesOn a s = false) (n : Nat) :
    outcome (l.within n a) s = (.ok (some a), s) := by
  cases n with
  | zero => rw [outcome_within_zero, hstops]; rfl
  | succ n => rw [outcome_within_succ, hstops]; rfl

/-- A turn that fails ends the loop, however many turns may be completed. -/
theorem outcome_within_of_fails {e : ε} {s' : σ} (hgoesOn : l.goesOn a s = true)
    (hturn : outcome (l.turn a) s = (.error e, s')) (n : Nat) :
    outcome (l.within n a) s = (.error e, s') := by
  cases n with
  | zero => rw [outcome_within_zero, hgoesOn, if_pos rfl, hturn]
  | succ n => rw [outcome_within_succ, hgoesOn, if_pos rfl, hturn]

/-- **Loops.** A loop has a result, after at most as many turns as there is left to do. -/
theorem Ends.exists_within (h : l.Ends inv left result) (hinv : inv a s) :
    ∃ r, result a s r ∧ ∀ n, left a s ≤ n → outcome (l.within n a) s = (r.1.map some, r.2) := by
  -- by induction on what is left to do, which each turn makes less
  induction hleft : left a s using Nat.strongRecOn generalizing a s with
  | ind k ih =>
    subst hleft
    cases hgoesOn : l.goesOn a s with
    | false => exact ⟨_, h.stops a s hinv hgoesOn, fun n _ => outcome_within_of_stops hgoesOn n⟩
    | true =>
      have hdoes := h.turns a s hinv hgoesOn
      generalize hturn : outcome (l.turn a) s = p at hdoes
      cases hdoes with
      | fails ends => exact ⟨_, ends, fun n _ => outcome_within_of_fails hgoesOn hturn n⟩
      | last ends pos =>
        refine ⟨_, ends, fun n hn => ?_⟩
        obtain ⟨n, rfl⟩ := Nat.exists_eq_succ_of_ne_zero (Nat.ne_zero_of_lt (Nat.lt_of_lt_of_le pos hn))
        rw [outcome_within_succ, hgoesOn, if_pos rfl, hturn]
        rfl
      | again keeps less rest =>
        obtain ⟨r, hr, hwithin⟩ := ih _ less keeps rfl
        refine ⟨r, rest r hr, fun n hn => ?_⟩
        have hless := Nat.lt_of_lt_of_le less hn
        obtain ⟨n, rfl⟩ := Nat.exists_eq_succ_of_ne_zero (Nat.ne_zero_of_lt hless)
        rw [outcome_within_succ, hgoesOn, if_pos rfl, hturn]
        exact hwithin n (Nat.le_of_lt_succ hless)

/-- **Loops on related states.** -/
theorem alike_within {τ : Type} {R : σ → τ → Prop} {l : Loop ε σ α} {k : Loop ε τ α}
    (hgoesOn : ∀ a s t, R s t → l.goesOn a s = k.goesOn a t) (hturn : ∀ a, Alike R (l.turn a) (k.turn a))
    (n : Nat) (a : α) : Alike R (l.within n a) (k.within n a) := by
  induction n generalizing a with
  | zero =>
    refine alike_get fun s t hst => ?_
    rw [hgoesOn a s t hst]
    exact Alike.ite ((hturn a).bind fun _ => alike_pure none) (alike_pure (some a))
  | succ n ih =>
    refine alike_get fun s t hst => ?_
    rw [hgoesOn a s t hst]
    refine Alike.ite ((hturn a).bind fun step => ?_) (alike_pure (some a))
    cases step with
    | yield b => exact ih b
    | done b => exact alike_pure (some b)

end Loop

/-! ### Loops side by side -/

section
variable {ε δ σ α β : Type}

/-- The second outcome is the first with another error or another value: errors correspond by `f`, and values
    by `Q`. -/
inductive Mirrors (f : ε → δ) (Q : α → β → σ → Prop) : Except ε α × σ → Except δ β × σ → Prop where
  | error (e : ε) (s : σ) : Mirrors f Q (.error e, s) (.error (f e), s)
  | ok {a : α} {b : β} {s : σ} (h : Q a b s) : Mirrors f Q (.ok a, s) (.ok b, s)

namespace Loop

/-- Both loops go on, or both are at their end. -/
inductive SameStep (R : α → β → σ → Prop) : ForInStep α → ForInStep β → σ → Prop where
  | yield {a : α} {b : β} {s : σ} (h : R a b s) : SameStep R (.yield a) (.yield b) s
  | done {a : α} {b : β} {s : σ} (h : R a b s) : SameStep R (.done a) (.done b) s

/-- The turns of `k` mirror those of `l`, where the loops work on things that `R` relates. -/
structure Mirrored (f : ε → δ) (R : α → β → σ → Prop) (l : Loop ε σ α) (k : Loop δ σ β) : Prop where
  goesOn : ∀ a b s, R a b s → k.goesOn b s = l.goesOn a s
  turns : ∀ a b s, R a b s → l.goesOn a s = true →
    Mirrors f (SameStep R) (outcome (l.turn a) s) (outcome (k.turn b) s)

/-- **Loops side by side.** If the turns of one loop mirror those of another, so does the loop. -/
theorem Mirrored.within {f : ε → δ} {R : α → β → σ → Prop} {l : Loop ε σ α} {k : Loop δ σ β}
    (hk : Mirrored f R l k) (n : Nat) {a : α} {b : β} {s : σ} (h : R a b s) :
    Mirrors f (fun a? b? s => Option.Rel (R · · s) a? b?) (outcome (l.within n a) s) (outcome (k.within n b) s) := by
  -- on the number of turns: both loops agree on going on, and a turn of each keeps the related states related
  induction n generalizing a b s with
  | zero =>
    rw [outcome_within_zero, outcome_within_zero, hk.goesOn a b s h]
    split
    · next hmore =>
      have hboth := hk.turns a b s h hmore
      generalize outcome (l.turn a) s = r, outcome (k.turn b) s = r' at hboth ⊢
      cases hboth with
      | error e s => exact .error e s
      | ok hsteps => exact .ok .none
    · exact .ok (.some h)
  | succ n ih =>
    rw [outcome_within_succ, outcome_within_succ, hk.goesOn a b s h]
    split
    · next hmore =>
      have hboth := hk.turns a b s h hmore
      generalize outcome (l.turn a) s = r, outcome (k.turn b) s = r' at hboth ⊢
      cases hboth with
      | error e s => exact .error e s
      | ok hsteps =>
        cases hsteps with
        | yield h => exact ih h
        | done h => exact .ok (.some h)
    · exact .ok (.some h)

end Loop

end

/-! ### Computations that may be broken off -/

section
variable {ε σ α β : Type}

/-- On `s`, `x` is not broken off and does what `y` does. -/
def Completes (x : ExceptT ε (StateM σ) (Option α)) (y : ExceptT ε (StateM σ) α) (s : σ) : Prop :=
  outcome x s = ((outcome y s).1.map some, (outcome y s).2)

/-- Goes on with a result, if there is one. -/
def whenCompleted (x : ExceptT ε (StateM σ) (Option α)) (f : α → ExceptT ε (StateM σ) β) :
    ExceptT ε (StateM σ) (Option β) := do
  match ← x with
  | some v => some <$> f v
  | none => return none

variable {x : ExceptT ε (StateM σ) (Option α)} {y : ExceptT ε (StateM σ) α} {s : σ}

/-- A computation that is not broken off. -/
theorem completes_some (y : ExceptT ε (StateM σ) α) (s : σ) : Completes (some <$> y) y s :=
  outcome_mapResult s some y

/-- What goes on with a completed result is completed. -/
theorem Completes.whenCompleted (h : Completes x y s) (f : α → ExceptT ε (StateM σ) β) :
    Completes (whenCompleted x f) (y >>= f) s := by
  rw [Completes, Amd64.whenCompleted, outcome_bind, h, outcome_bind]
  rcases outcome y s with ⟨e | v, s'⟩
  · rfl
  · exact completes_some (f v) s'

/-- A loop that ends with what a computation does. -/
theorem Loop.Ends.completes {l : Loop ε σ α} {inv : α → σ → Prop} {left : α → σ → Nat}
    {z : α → ExceptT ε (StateM σ) α} {a : α} {n : Nat} (h : l.Ends inv left fun a s r => r = outcome (z a) s)
    (hinv : inv a s) (hn : left a s ≤ n) : Completes (l.within n a) (z a) s := by
  obtain ⟨r, rfl, hwithin⟩ := h.exists_within hinv
  exact hwithin n hn

/-- What comes before is done on both sides. -/
theorem Completes.bind {z : ExceptT ε (StateM σ) β} {f : β → ExceptT ε (StateM σ) (Option α)}
    {g : β → ExceptT ε (StateM σ) α} (h : ∀ v s', outcome z s = (.ok v, s') → Completes (f v) (g v) s') :
    Completes (z >>= f) (z >>= g) s := by
  rw [Completes, outcome_bind, outcome_bind]
  rcases hz : outcome z s with ⟨e | v, s'⟩
  · rfl
  · exact h v s' hz

/-- Both sides go on, or none. -/
theorem Alike.whenCompleted {τ : Type} {R : σ → τ → Prop} {x' : ExceptT ε (StateM τ) (Option α)}
    {f : α → ExceptT ε (StateM σ) β} {g : α → ExceptT ε (StateM τ) β} (hx : Alike R x x')
    (hf : ∀ v, Alike R (f v) (g v)) : Alike R (Amd64.whenCompleted x f) (Amd64.whenCompleted x' g) := by
  refine hx.bind fun v => ?_
  cases v with
  | none => exact alike_pure none
  | some v => exact (hf v).bind fun w => alike_pure (some w)

end

end Amd64
