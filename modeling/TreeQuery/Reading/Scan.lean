import TreeQuery.Reading.Cursor
import TreeQuery.Reading.Fault

/-
  Readers of parts of a query.

  A reader starts at a cursor and gives a value or a fault,
  with the cursor at which it stops in either case.

  Key definitions include:
    * `Scan`
    * `Scan.within`
    * `Scan.Advances`
    * `Scan.Consumes`

  Main statements:
    * `Scan.bind_eq_ok_iff`
    * `Scan.Advances.bind`
    * `Scan.Consumes.bind_left`
    * `Scan.Consumes.bind_right`
-/

namespace TreeQuery

/- Readers with a value of type `α`. -/
abbrev Scan (α : Type) :=
  EStateM Fault Cursor α

namespace Scan

variable {α β : Type}

------------------------------------------------------------
-- Basic Readers
------------------------------------------------------------

/- The cursor at which a reader stops. -/
def stop : EStateM.Result Fault Cursor α → Cursor
| .ok _ c => c
| .error _ c => c

/- Stop with a fault at the cursor. -/
def fail (cause : Cause) : Scan α := fun c =>
  .error ⟨cause, c.offset⟩ c

/- Stop with a fault at an offset. -/
def failAt (offset : Nat) (cause : Cause) : Scan α := fun c =>
  .error ⟨cause, offset⟩ c

/- The next character. -/
def peek? : Scan (Option Char) := fun c =>
  .ok c.peek? c

/- The offset of the cursor. -/
def offset : Scan Nat := fun c =>
  .ok c.offset c

/- Nothing is left to read. -/
def isAtEnd : Scan Bool := fun c =>
  .ok c.isAtEnd c

/- Read one character. -/
def advance : Scan Unit := fun c =>
  .ok () c.advance

/- Read blanks, and tell whether there were any. -/
def skipBlanks : Scan Bool := fun c =>
  .ok c.atBlank c.skipBlanks

/- Read a text if it comes next, and tell whether it did. -/
def chomp (text : String) : Scan Bool := fun c =>
  match c.chomp? text.toList with
  | some d => .ok true d
  | none => .ok false c

/- Read everything that is left. -/
def remainder : Scan (List Char) := fun c =>
  .ok c.rest c.toEnd

/- Read a part of the text with a cursor of its own. -/
def within (part : Cursor) (act : Scan α) : Scan α := fun c =>
  match act part with
  | .ok a _ => .ok a c
  | .error fault _ => .error fault c

/- The value of a computation that reads nothing. -/
def ofExcept : Except Fault α → Scan α
| .ok a => fun c => .ok a c
| .error fault => fun c => .error fault c

/- Nothing may follow at the end of a part. -/
def expectEnd (place : EndOf) : Scan Unit := fun c =>
  match c.peek? with
  | none => .ok () c
  | some found => .error ⟨.unexpectedAfter found place, c.offset⟩ c

------------------------------------------------------------
-- Sequences of Readers
------------------------------------------------------------

/- Two readers succeed together if each does where it starts. -/
theorem bind_eq_ok_iff
    {act : Scan α}
    {next : α → Scan β}
    {c e : Cursor}
    {b : β} :
    (act >>= next) c = .ok b e ↔
      ∃ a d, act c = .ok a d ∧ next a d = .ok b e := by
  simp only [Bind.bind, EStateM.bind]
  cases act c with
  | error fault d => simp
  | ok a d =>
      simp only [EStateM.Result.ok.injEq]
      constructor
      · intro h
        exact ⟨a, d, ⟨rfl, rfl⟩, h⟩
      · rintro ⟨_, _, ⟨rfl, rfl⟩, h⟩
        exact h

theorem pure_eq_ok_iff
    {a b : α}
    {c d : Cursor} :
    (pure a : Scan α) c = .ok b d ↔ a = b ∧ c = d := by
  simp [Pure.pure, EStateM.pure]

theorem map_eq_ok_iff
    {act : Scan α}
    {f : α → β}
    {c d : Cursor}
    {b : β} :
    (f <$> act) c = .ok b d ↔ ∃ a, act c = .ok a d ∧ f a = b := by
  simp only [Functor.map, EStateM.map]
  cases act c with
  | error fault e => simp
  | ok a e =>
      simp only [EStateM.Result.ok.injEq]
      constructor
      · rintro ⟨hValue, rfl⟩
        exact ⟨a, ⟨rfl, rfl⟩, hValue⟩
      · rintro ⟨_, ⟨rfl, rfl⟩, hValue⟩
        exact ⟨hValue, rfl⟩

------------------------------------------------------------
-- Progress
------------------------------------------------------------

/- The reader only moves forward, also when it fails. -/
def Advances (act : Scan α) : Prop :=
  ∀ c : Cursor, c.Reaches (stop (act c))

/- The reader reads something whenever it gives a value. -/
def Consumes (act : Scan α) : Prop :=
  ∀ (c d : Cursor) (a : α),
    act c = .ok a d → d.rest.length < c.rest.length

theorem Advances.pure (a : α) :
    Advances (pure a : Scan α) := fun c =>
  Cursor.Reaches.refl c

theorem Advances.bind
    {act : Scan α}
    {next : α → Scan β}
    (hAct : Advances act)
    (hNext : ∀ a, Advances (next a)) :
    Advances (act >>= next) := by
  intro c
  have hFirst := hAct c
  simp only [Bind.bind, EStateM.bind]
  cases h : act c with
  | ok a d =>
      rw [h] at hFirst
      exact hFirst.trans (hNext a d)
  | error fault d =>
      rw [h] at hFirst
      exact hFirst

theorem Advances.map
    {act : Scan α}
    (f : α → β)
    (hAct : Advances act) :
    Advances (f <$> act) := by
  intro c
  have hFirst := hAct c
  simp only [Functor.map, EStateM.map]
  cases h : act c with
  | ok a d =>
      rw [h] at hFirst
      exact hFirst
  | error fault d =>
      rw [h] at hFirst
      exact hFirst

theorem Advances.ite
    {p : Prop}
    [Decidable p]
    {act other : Scan α}
    (hAct : Advances act)
    (hOther : Advances other) :
    Advances (if p then act else other) := by
  split
  · exact hAct
  · exact hOther

/- A reader that only moves forward leaves no longer text. -/
theorem Advances.length_le
    {act : Scan α}
    (hAct : Advances act)
    {c d : Cursor}
    {a : α}
    (h : act c = .ok a d) :
    d.rest.length ≤ c.rest.length := by
  have hReach := hAct c
  rw [h] at hReach
  exact hReach.length_le

theorem Consumes.bind_left
    {act : Scan α}
    {next : α → Scan β}
    (hAct : Consumes act)
    (hNext : ∀ a, Advances (next a)) :
    Consumes (act >>= next) := by
  intro c e b h
  rcases bind_eq_ok_iff.1 h with ⟨a, d, hFirst, hLast⟩
  have hStart := hAct c d a hFirst
  have hRest := (hNext a).length_le hLast
  omega

theorem Consumes.bind_right
    {act : Scan α}
    {next : α → Scan β}
    (hAct : Advances act)
    (hNext : ∀ a, Consumes (next a)) :
    Consumes (act >>= next) := by
  intro c e b h
  rcases bind_eq_ok_iff.1 h with ⟨a, d, hFirst, hLast⟩
  have hStart := hAct.length_le hFirst
  have hRest := hNext a d e b hLast
  omega

theorem Consumes.map
    {act : Scan α}
    (f : α → β)
    (hAct : Consumes act) :
    Consumes (f <$> act) := by
  intro c d b h
  rcases map_eq_ok_iff.1 h with ⟨a, hFirst, _⟩
  exact hAct c d a hFirst

------------------------------------------------------------
-- Progress of Basic Readers
------------------------------------------------------------

theorem advances_fail (cause : Cause) :
    Advances (fail cause : Scan α) := fun c =>
  Cursor.Reaches.refl c

theorem advances_failAt (offset : Nat) (cause : Cause) :
    Advances (failAt offset cause : Scan α) := fun c =>
  Cursor.Reaches.refl c

theorem consumes_failAt (offset : Nat) (cause : Cause) :
    Consumes (failAt offset cause : Scan α) := by
  intro c d a h
  simp [failAt] at h

theorem advances_peek? : Advances peek? := fun c =>
  Cursor.Reaches.refl c

theorem advances_offset : Advances offset := fun c =>
  Cursor.Reaches.refl c

theorem advances_isAtEnd : Advances isAtEnd := fun c =>
  Cursor.Reaches.refl c

theorem advances_advance : Advances advance := fun c =>
  c.reaches_advance

theorem advances_skipBlanks : Advances skipBlanks := fun c =>
  c.reaches_dropWhile Text.isBlank

theorem advances_chomp (text : String) : Advances (chomp text) := by
  intro c
  unfold chomp
  split
  · next d h => exact Cursor.reaches_chomp? h
  · exact Cursor.Reaches.refl c

theorem advances_remainder : Advances remainder := fun c =>
  c.reaches_toEnd

theorem advances_within (part : Cursor) (act : Scan α) :
    Advances (within part act) := by
  intro c
  unfold within
  split
  · exact Cursor.Reaches.refl c
  · exact Cursor.Reaches.refl c

theorem advances_ofExcept (result : Except Fault α) :
    Advances (ofExcept result) := by
  intro c
  cases result with
  | ok a => exact Cursor.Reaches.refl c
  | error fault => exact Cursor.Reaches.refl c

end Scan

end TreeQuery
