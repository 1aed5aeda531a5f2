import Amd64.Decoder.Prefixes

namespace Amd64

/-!
# Readers decide by what they have read

* `Reader.Reads`   — a reader makes a value or a refusal of exactly these bytes;
* `Reader.Ensures` — whatever a reader makes of a list it makes of a front part of the list, and its
  values have a property;
* `Reader.Ensures.bind`, `Reader.Ensures.ite` — readers that are put together from such readers;
* `Reader.On`      — what a reader makes of certain bytes has a property;
* `Reader.ensures_byte`, `Reader.ensures_number`, `Reader.on_number`, `Prefixes.ensures_read` — the readers at
  the bottom.
-/

namespace Reader

variable {α β : Type}

/-- `r` makes `result` of exactly the bytes `used`: it wants all of them and looks at no others. -/
structure Reads (r : Reader α) (used : List UInt8) (result : Except Refusal α) : Prop where
  complete : ∀ s, r.parse (used ++ s) = some (result, s)
  missing : ∀ k < used.length, r.parse (used.take k) = none

/-- Whatever `r` makes of a list it makes of a front part of the list, and its values have `P`. -/
structure Ensures (r : Reader α) (P : α → Prop) : Prop where
  reads : ∀ {bs result rest}, r.parse bs = some (result, rest) →
    ∃ used, bs = used ++ rest ∧ r.Reads used result
  value : ∀ {bs v rest}, r.parse bs = some (.ok v, rest) → P v

/-! ### Steps -/

@[simp] theorem parse_pure (v : α) (bs : List UInt8) :
    (pure v : Reader α).parse bs = some (.ok v, bs) := rfl

/-- A refusal takes no bytes. -/
@[simp] theorem parse_throw (e : Refusal) (bs : List UInt8) :
    (throw e : Reader α).parse bs = some (.error e, bs) := rfl

/-- The second reader goes on where the first one stopped, unless that refused or ran out of bytes. -/
theorem parse_bind (r : Reader α) (f : α → Reader β) (bs : List UInt8) :
    (r >>= f).parse bs =
      match r.parse bs with
      | none => none
      | some (.ok v, rest) => (f v).parse rest
      | some (.error e, rest) => some (.error e, rest) := by
  show (r.parse bs >>= fun x => (ExceptT.bindCont f x.1 : StateT (List UInt8) Option _) x.2) = _
  rcases r.parse bs with _ | ⟨_ | _, _⟩ <;> rfl

/-- A step that yields a value, and the step behind it. -/
theorem Reads.bind {r : Reader α} {f : α → Reader β} {used used' : List UInt8} {v : α}
    {result : Except Refusal β} (hr : r.Reads used (.ok v)) (hf : (f v).Reads used' result) :
    (r >>= f).Reads (used ++ used') result := by
  refine ⟨fun s => ?_, fun k hk => ?_⟩
  · rw [parse_bind, List.append_assoc, hr.complete]
    exact hf.complete s
  · rw [parse_bind, List.take_append]
    -- the bytes end in the first step or in the second
    by_cases hlt : k < used.length
    · rw [show k - used.length = 0 by omega, List.take_zero, List.append_nil, hr.missing k hlt]
    · rw [List.length_append] at hk
      rw [List.take_of_length_le (by omega), hr.complete]
      exact hf.missing _ (by omega)

/-- Behind a refusal nothing is read. -/
theorem Reads.bind_error {r : Reader α} {used : List UInt8} {e : Refusal}
    (hr : r.Reads used (.error e)) (f : α → Reader β) : (r >>= f).Reads used (.error e) := by
  refine ⟨fun s => ?_, fun k hk => ?_⟩
  · rw [parse_bind, hr.complete]
  · rw [parse_bind, hr.missing k hk]

section
variable {P : α → Prop} {Q : β → Prop}

/-- A reader that reads nothing. -/
theorem ensures_of_parse {r : Reader α} {result : Except Refusal α}
    (hr : ∀ bs, r.parse bs = some (result, bs)) (h : ∀ v, result = .ok v → P v) : r.Ensures P := by
  refine ⟨fun {bs result' rest} hparse => ?_, fun {bs v rest} hparse => ?_⟩
  · obtain ⟨rfl, rfl⟩ := Prod.mk.inj (Option.some.inj ((hr bs).symm.trans hparse))
    exact ⟨[], rfl, hr, fun k hk => absurd hk (Nat.not_lt_zero k)⟩
  · obtain ⟨hv, _⟩ := Prod.mk.inj (Option.some.inj ((hr bs).symm.trans hparse))
    exact h v hv

/-- A value ensures what holds of it. -/
theorem ensures_pure {v : α} (h : P v) : (pure v : Reader α).Ensures P :=
  ensures_of_parse (parse_pure v) fun _ hv => Except.ok.inj hv ▸ h

theorem ensures_throw (e : Refusal) : (throw e : Reader α).Ensures P :=
  ensures_of_parse (parse_throw e) nofun

theorem ensures_invalid : (invalid : Reader α).Ensures P :=
  ensures_throw .invalid

theorem ensures_unsupported : (unsupported : Reader α).Ensures P :=
  ensures_throw .unsupported

/-- **Sequences.** A reader whose next step depends on the value before it. -/
theorem Ensures.bind {r : Reader α} {f : α → Reader β} (hr : r.Ensures P)
    (hf : ∀ v, P v → (f v).Ensures Q) : (r >>= f).Ensures Q := by
  refine ⟨fun {bs result rest} hparse => ?_, fun {bs w rest} hparse => ?_⟩
  · rw [parse_bind] at hparse
    split at hparse
    · simp at hparse
    · next v mid hv =>
      obtain ⟨used, rfl, hused⟩ := hr.reads hv
      obtain ⟨used', rfl, hused'⟩ := (hf v (hr.value hv)).reads hparse
      exact ⟨used ++ used', (List.append_assoc ..).symm, hused.bind hused'⟩
    · next e mid he =>
      obtain ⟨used, rfl, hused⟩ := hr.reads he
      obtain ⟨rfl, rfl⟩ := Prod.mk.inj (Option.some.inj hparse)
      exact ⟨used, rfl, hused.bind_error f⟩
  · rw [parse_bind] at hparse
    split at hparse
    · simp at hparse
    · next v mid hv => exact (hf v (hr.value hv)).value hparse
    · simp at hparse

/-- A last step that only computes. -/
theorem Ensures.map {r : Reader α} {f : α → β} (hr : r.Ensures P) (hf : ∀ v, P v → Q (f v)) :
    (do return f (← r) : Reader β).Ensures Q :=
  hr.bind fun v hv => ensures_pure (hf v hv)

/-- **Choices.** A reader that depends on what is known. -/
theorem Ensures.ite {c : Prop} [Decidable c] {r s : Reader α} (hr : c → r.Ensures P)
    (hs : ¬ c → s.Ensures P) : (if c then r else s).Ensures P := by
  by_cases hc : c
  · rw [if_pos hc]
    exact hr hc
  · rw [if_neg hc]
    exact hs hc

end

/-! ### Readers on certain bytes -/

section
variable {r : Reader α} {bs : List UInt8} {P : α → List UInt8 → Prop} {Q : β → List UInt8 → Prop}

/-- If `r` makes a value of `bs`, this value and the bytes that are left have `P`. -/
def On (r : Reader α) (bs : List UInt8) (P : α → List UInt8 → Prop) : Prop :=
  ∀ v rest, r.parse bs = some (.ok v, rest) → P v rest

/-- What holds of every value holds of those that are read from `bs`. -/
theorem Ensures.on {P : α → Prop} (h : r.Ensures P) (bs : List UInt8) : r.On bs fun v _ => P v :=
  fun _ _ hparse => h.value hparse

theorem on_pure {v : α} (h : P v bs) : (pure v : Reader α).On bs P := by
  intro v' rest hparse
  obtain ⟨hv, rfl⟩ := Prod.mk.inj (Option.some.inj hparse)
  exact Except.ok.inj hv ▸ h

theorem on_throw (e : Refusal) : (throw e : Reader α).On bs P :=
  fun _ _ hparse => nomatch (Prod.mk.inj (Option.some.inj hparse)).1

/-- A step and the step behind it, on the bytes that the first one leaves. -/
theorem On.seq {f : α → Reader β} (hr : r.On bs P) (hf : ∀ v rest, P v rest → (f v).On rest Q) :
    (r >>= f).On bs Q := by
  intro w rest hparse
  rw [parse_bind] at hparse
  split at hparse
  · exact nomatch hparse
  · next v mid hv => exact hf v mid (hr v mid hv) w rest hparse
  · exact nomatch hparse

/-- The branches of a condition are looked at one by one. -/
theorem On.ite {c : Prop} [Decidable c] {s : Reader α} (hr : c → r.On bs P) (hs : ¬ c → s.On bs P) :
    (if c then r else s).On bs P := by
  by_cases hc : c
  · rw [if_pos hc]
    exact hr hc
  · rw [if_neg hc]
    exact hs hc

end

section
variable {r : Reader α} {bs : List UInt8} {P : α → Prop} {Q : β → Prop}

/-- A step that matters and further ones that do not depend on the bytes. -/
theorem On.bind {f : α → Reader β} (hr : r.On bs fun v _ => P v) (hf : ∀ v, P v → (f v).Ensures Q) :
    (r >>= f).On bs fun w _ => Q w :=
  hr.seq fun v rest hv => (hf v hv).on rest

/-- What is computed from a value has what follows from the value. -/
theorem On.map {f : α → β} (hr : r.On bs fun v _ => P v) (hf : ∀ v, P v → Q (f v)) :
    (do return f (← r) : Reader β).On bs fun w _ => Q w :=
  hr.bind fun v hv => ensures_pure (hf v hv)

end

/-! ### Bytes and numbers -/

/-- A property that says nothing, for readers of which no property of the values matters. -/
def Any (_ : α) : Prop := True

theorem ensures_byte : byte.Ensures Any := by
  refine ⟨fun {bs result rest} hparse => ?_, fun _ => trivial⟩
  cases bs with
  | nil => exact nomatch (show none = some (result, rest) from hparse)
  | cons b bs =>
    obtain ⟨rfl, rfl⟩ := Prod.mk.inj (Option.some.inj hparse)
    refine ⟨[b], rfl, fun _ => rfl, fun k hk => ?_⟩
    obtain rfl : k = 0 := by simpa using hk
    rfl

/-- The next byte, and the step behind it on the bytes after it. -/
theorem on_byte_bind {f : UInt8 → Reader α} {bs : List UInt8} {P : α → List UInt8 → Prop}
    (h : ∀ b rest, bs = b :: rest → (f b).On rest P) : (byte >>= f).On bs P := by
  refine On.seq (P := fun b rest => bs = b :: rest) (fun b rest hparse => ?_) h
  cases bs with
  | nil => exact nomatch (show none = some (Except.ok b, rest) from hparse)
  | cons c bs =>
    obtain ⟨hb, rfl⟩ := Prod.mk.inj (Option.some.inj hparse)
    rw [← Except.ok.inj hb]

/-- A number takes all of its bytes or, if some are missing, there is no result. -/
theorem parse_number (n : Nat) (bs : List UInt8) :
    (number n).parse bs =
      if bs.length < n then none
      else some (.ok (LittleEndian.value (bs.take n)), bs.drop n) := rfl

theorem ensures_number (n : Nat) : (number n).Ensures Any := by
  refine ⟨fun {bs result rest} hparse => ?_, fun _ => trivial⟩
  rw [parse_number] at hparse
  split at hparse
  · simp at hparse
  · next hlong =>
    obtain ⟨rfl, rfl⟩ := Prod.mk.inj (Option.some.inj hparse)
    have hlen : (bs.take n).length = n := by
      rw [List.length_take]
      omega
    -- all `n` bytes are taken at once, so with fewer of them there is no number
    refine ⟨bs.take n, (List.take_append_drop n bs).symm, fun s => ?_, fun k hk => ?_⟩
    · rw [parse_number, if_neg (by rw [List.length_append]; omega), List.take_left' hlen,
        List.drop_left' hlen]
    · rw [parse_number, if_pos (by rw [List.length_take]; omega)]

/-- A number is the value of all bytes that are read for it. -/
theorem on_number (n : Nat) (bs : List UInt8) : (number n).On bs fun v rest =>
    ∃ used, bs = used ++ rest ∧ used.length = n ∧ v = LittleEndian.value used := by
  intro v rest hparse
  rw [parse_number] at hparse
  split at hparse
  · exact nomatch hparse
  · next hlong =>
    obtain ⟨hv, rfl⟩ := Prod.mk.inj (Option.some.inj hparse)
    exact ⟨bs.take n, (List.take_append_drop n bs).symm, List.length_take_of_le (Nat.not_lt.mp hlong),
      (Except.ok.inj hv).symm⟩

theorem ensures_immediate (w : Width) : (immediate w).Ensures Any :=
  (ensures_number _).map fun _ _ => trivial

theorem ensures_int8 : int8.Ensures Any :=
  ensures_byte.map fun _ _ => trivial

theorem ensures_int32 : int32.Ensures Any :=
  (ensures_number 4).map fun _ _ => trivial

end Reader

/-! ### Prefixes -/

namespace Prefixes

open Reader

/-- A prefix is added and reading goes on behind it; any other byte is the opcode. -/
theorem parse_readFrom (p : Prefixes) (b : UInt8) (bs : List UInt8) :
    Reader.parse (ExceptT.mk (readFrom p)) (b :: bs) =
      match p.add? b with
      | some q => Reader.parse (ExceptT.mk (readFrom q)) bs
      | none => some (.ok (p, b), bs) := by
  show readFrom p (b :: bs) = _
  rw [readFrom]
  cases p.add? b <;> rfl

/-- The loop over the prefixes stops at the first byte that is none. -/
theorem exists_reads_readFrom (p : Prefixes) {bs rest : List UInt8}
    {result : Except Refusal (Prefixes × UInt8)}
    (h : Reader.parse (ExceptT.mk (readFrom p)) bs = some (result, rest)) :
    ∃ used, bs = used ++ rest ∧ Reads (ExceptT.mk (readFrom p)) used result := by
  -- each prefix is one more byte that is wanted, whatever it says
  induction bs generalizing p with
  | nil => exact nomatch (show none = some (result, rest) from h)
  | cons b bs ih =>
    rw [parse_readFrom] at h
    cases hadd : p.add? b with
    | none =>
      rw [hadd] at h
      obtain ⟨rfl, rfl⟩ := Prod.mk.inj (Option.some.inj h)
      refine ⟨[b], rfl, fun s => ?_, fun k hk => ?_⟩
      · rw [List.singleton_append, parse_readFrom, hadd]
      · obtain rfl : k = 0 := by simpa using hk
        rfl
    | some q =>
      rw [hadd] at h
      obtain ⟨used, rfl, hused⟩ := ih q h
      refine ⟨b :: used, rfl, fun s => ?_, fun k hk => ?_⟩
      · rw [List.cons_append, parse_readFrom, hadd]
        exact hused.complete s
      · cases k with
        | zero => rfl
        | succ k =>
          rw [List.take_succ_cons, parse_readFrom, hadd]
          exact hused.missing k (Nat.lt_of_succ_lt_succ hk)

theorem ensures_read : read.Ensures Any :=
  ⟨exists_reads_readFrom empty, fun _ => trivial⟩

end Prefixes

end Amd64
