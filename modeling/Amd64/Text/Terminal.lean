namespace Amd64

/-!
# Text on a terminal

A terminal takes some characters as commands: control characters, and sequences that begin with an escape.
What the user typed is shown without them, so that a message cannot change the look of the screen.

* `TerminalState`       — where a terminal stands in a sequence;
* `TerminalState.after` — where it stands behind a character;
* `visibleText`         — what is left of a text.

Every character that is left can be shown (`isShown_of_mem_visibleFrom`), none is added or moved
(`visibleFrom_sublist`), and text without commands stays as it is (`visibleFrom_of_isShown`). So to take the
commands out twice is to take them out once (`visibleText_visibleText`).
-/

/-- Where a terminal stands in a sequence. -/
inductive TerminalState where
  /-- Outside of sequences. -/
  | ground
  /-- Behind an escape. -/
  | escape
  /-- Behind an escape and intermediate characters. -/
  | escapeTail
  /-- In a control sequence, which a final character ends. -/
  | control
  /-- In a command for the operating system, which a bell ends. -/
  | command
  /-- At the beginning of a control string for a device. -/
  | device
  /-- In the parameters of such a string. -/
  | deviceParameter
  /-- Behind the intermediate characters of such a string. -/
  | deviceTail
  /-- In a string that only its terminator ends. -/
  | string
deriving DecidableEq, Inhabited

/-- Whether a character is an intermediate one of a sequence. -/
def isIntermediate (c : Char) : Bool :=
  0x20 ≤ c.toNat ∧ c.toNat ≤ 0x2f

/-- Whether a character is a parameter of a sequence. -/
def isParameter (c : Char) : Bool :=
  0x30 ≤ c.toNat ∧ c.toNat ≤ 0x3f

/-- Whether a character ends a control sequence. -/
def isFinal (c : Char) : Bool :=
  0x40 ≤ c.toNat ∧ c.toNat ≤ 0x7e

/-- Whether one of the bytes of a character is the terminator of strings. -/
def hasTerminator (c : Char) : Bool :=
  (String.utf8EncodeChar c).contains 0x9c

namespace TerminalState

/-- Where a terminal stands behind a character. A cancel or substitute character ends a sequence, and an
escape begins another one, wherever they are. -/
def after (s : TerminalState) (c : Char) : TerminalState :=
  if c.toNat = 0x18 ∨ c.toNat = 0x1a then ground
  else if c.toNat = 0x1b then escape
  else
    match s with
    | ground => ground
    | escape =>
      if isIntermediate c then escapeTail
      else if c = '[' then control
      else if c = ']' then command
      else if c = 'P' then device
      else if c = 'X' ∨ c = '^' ∨ c = '_' then string
      else if isParameter c ∨ isFinal c then ground
      else escape
    | escapeTail => if isParameter c ∨ isFinal c then ground else escapeTail
    | control => if isFinal c then ground else control
    | command => if c.toNat = 0x07 then ground else command
    | device =>
      if isIntermediate c then deviceTail
      else if isParameter c then deviceParameter
      else if isFinal c then string
      else device
    | deviceParameter =>
      if isIntermediate c then deviceTail
      else if isParameter c then
        if c.toNat < 0x3c then deviceParameter else string
      else if isFinal c then string
      else deviceParameter
    | deviceTail => if isParameter c ∨ isFinal c then string else deviceTail
    | string => if hasTerminator c then ground else string

/-- Whether blanks between lines are shown, although a sequence is not over. -/
def letsBlanksThrough : TerminalState → Bool
  | escape | escapeTail | control => true
  | _ => false

end TerminalState

/-- Whether a character moves to another place and shows nothing. -/
def isMotion (c : Char) : Bool :=
  c = '\t' ∨ c = '\n' ∨ c = '\x0c' ∨ c = '\r'

/-- Whether a character can be shown: it is none of the control characters of seven bits, motions apart. -/
def isShown (c : Char) : Bool :=
  isMotion c ∨ 0x20 ≤ c.toNat ∧ c.toNat ≠ 0x7f

/-- What is left of a text. Once a character is shown, all behind it are shown up to the next one that
cannot be; that one is taken where the last sequence stopped. -/
def visibleFrom (showing : Bool) (s : TerminalState) : List Char → List Char
  | [] => []
  | c :: cs =>
    if showing && isShown c then
      c :: visibleFrom true (if c.toNat < 0x80 then s else .ground) cs
    else if isShown c && (s = .ground || isMotion c && s.letsBlanksThrough) then
      c :: visibleFrom true s cs
    else visibleFrom false (s.after c) cs

/-- The text without control characters and sequences. -/
def visibleText (s : String) : String :=
  String.ofList (visibleFrom false .ground s.toList)

/-- Every character that is left can be shown. -/
theorem isShown_of_mem_visibleFrom {showing : Bool} {s : TerminalState} {cs : List Char} {c : Char}
    (h : c ∈ visibleFrom showing s cs) : isShown c = true := by
  induction cs generalizing showing s with
  | nil => simp [visibleFrom] at h
  | cons d ds ih =>
    simp only [visibleFrom] at h
    split at h
    · next hd =>
      rcases List.mem_cons.1 h with rfl | h
      · simp_all
      · exact ih h
    · split at h
      · next hd =>
        rcases List.mem_cons.1 h with rfl | h
        · simp_all
        · exact ih h
      · exact ih h

/-- No character is added or moved. -/
theorem visibleFrom_sublist (showing : Bool) (s : TerminalState) (cs : List Char) :
    (visibleFrom showing s cs).Sublist cs := by
  induction cs generalizing showing s with
  | nil => exact List.Sublist.slnil
  | cons c cs ih =>
    simp only [visibleFrom]
    split
    · exact (ih _ _).cons_cons c
    · split
      · exact (ih _ _).cons_cons c
      · exact (ih _ _).cons c

/-- Text that can be shown stays as it is. -/
theorem visibleFrom_of_isShown (showing : Bool) {cs : List Char} (h : ∀ c ∈ cs, isShown c = true) :
    visibleFrom showing .ground cs = cs := by
  induction cs generalizing showing with
  | nil => rfl
  | cons c cs ih =>
    have hc : isShown c = true := h c List.mem_cons_self
    have hcs := ih true fun d hd => h d (List.mem_cons_of_mem c hd)
    cases showing <;> simp [visibleFrom, hc, hcs]

/-- What is left has nothing more to lose. -/
theorem visibleText_visibleText (s : String) : visibleText (visibleText s) = visibleText s := by
  unfold visibleText
  rw [String.toList_ofList, visibleFrom_of_isShown false fun _ hc => isShown_of_mem_visibleFrom hc]

end Amd64
