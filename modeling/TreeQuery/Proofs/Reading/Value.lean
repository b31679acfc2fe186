import TreeQuery.Reading.Group

/-
  Readers without their faults.

  What a reader gives, if it gives anything: a value and the
  cursor behind it.  Sequences of readers become sequences of
  options, which can be computed step by step on a text of
  which only the start is known.

  Key definitions include:
    * `Scan.value?`

  Main statements:
    * `Scan.value?_bind`
    * `Scan.partsFrom_step`
    * `Scan.chainFrom_step`
    * `Scan.branchesFrom_step`
    * `Scan.value?_part?`
    * `Scan.value?_partsFrom`
    * `Scan.value?_chainFrom`
    * `Scan.value?_chain`
    * `Scan.value?_branchesFrom`
-/

namespace TreeQuery

variable {E : Engine}

------------------------------------------------------------
-- Cursors
------------------------------------------------------------

namespace Cursor

/- Moving on behind a text adds its bytes to the offset. -/
@[simp]
theorem moveTo_append
    (o : Nat)
    (text rest : List Char) :
    (⟨o, text ++ rest⟩ : Cursor).moveTo rest =
      ⟨o + Text.byteLength text, rest⟩ := by
  simp [moveTo]

@[simp]
theorem moveTo_self (o : Nat) (rest : List Char) :
    (⟨o, rest⟩ : Cursor).moveTo rest = ⟨o, rest⟩ := by
  simp [moveTo]

/- Blanks are skipped only where there are some. -/
@[simp]
theorem skipBlanks_nil (o : Nat) :
    (⟨o, []⟩ : Cursor).skipBlanks = ⟨o, []⟩ := by
  simp [skipBlanks, dropWhile]

theorem skipBlanks_cons_of_not
    {x : Char}
    (h : Text.isBlank x = false)
    (o : Nat)
    (xs : List Char) :
    (⟨o, x :: xs⟩ : Cursor).skipBlanks = ⟨o, x :: xs⟩ := by
  simp [skipBlanks, dropWhile, h]

theorem skipBlanks_space
    {x : Char}
    (h : Text.isBlank x = false)
    (o : Nat)
    (xs : List Char) :
    (⟨o, ' ' :: x :: xs⟩ : Cursor).skipBlanks = ⟨o + 1, x :: xs⟩ := by
  have hSpace : Text.isBlank ' ' = true := by decide
  have hRest :
      (' ' :: x :: xs).dropWhile Text.isBlank = x :: xs := by
    simp [hSpace, h]
  rw [skipBlanks, dropWhile, hRest]
  exact moveTo_append o [' '] (x :: xs)

/-
  A sign of one byte, which has no other case, is read where
  it comes next.
-/
theorem chomp?_sign
    {sign : Char}
    (hByte : sign.utf8Size = 1)
    (hCase : ∀ x : Char, x.toLower = sign.toLower ↔ x = sign)
    (c : Cursor) :
    c.chomp? [sign] =
      match c.rest with
      | [] => none
      | x :: xs => if x = sign then some ⟨c.offset + 1, xs⟩ else none := by
  unfold chomp?
  rw [Text.byteLength_cons, Text.byteLength_nil, hByte]
  cases c.rest with
  | nil => rfl
  | cons x xs =>
      have hPos := x.utf8Size_pos
      by_cases hFits : x.utf8Size ≤ 1
      · have hOne : 1 - x.utf8Size = 0 := by omega
        simp [Text.cutAtByte?, hFits, hOne, Text.equalIgnoringCase_iff,
          Text.asciiLower, hCase]
      · have hOther : x ≠ sign := by
          rintro rfl
          omega
        simp [Text.cutAtByte?, hFits, hOther]

/- A text is not read where another letter comes next. -/
theorem chomp?_of_ne
    {x y : Char}
    (hOther : x.toLower ≠ y.toLower)
    (o : Nat)
    (xs ys : List Char) :
    (⟨o, x :: xs⟩ : Cursor).chomp? (y :: ys) = none := by
  unfold chomp?
  split
  · next head tail hCut =>
      rcases Text.cutAtByte?_eq_some_iff.1 hCut with ⟨hSplit, hBytes⟩
      have hPos := y.utf8Size_pos
      cases head with
      | nil =>
          rw [Text.byteLength_nil, Text.byteLength_cons] at hBytes
          omega
      | cons z zs =>
          cases hSplit
          rw [if_neg]
          intro hEqual
          rw [Text.equalIgnoringCase_iff] at hEqual
          exact hOther (List.cons.inj hEqual).1
  · rfl

end Cursor

namespace Scan

variable {α β : Type}

------------------------------------------------------------
-- Values
------------------------------------------------------------

/- The second reader starts where the first one stops. -/
theorem bind_eq_of_ok
    {act : Scan α}
    {next : α → Scan β}
    {c d : Cursor}
    {a : α}
    (h : act c = .ok a d) :
    (act >>= next) c = next a d := by
  simp only [Bind.bind, EStateM.bind, h]

/- A fault of the first reader is the fault of both. -/
theorem bind_eq_error
    {act : Scan α}
    {next : α → Scan β}
    {c d : Cursor}
    {fault : Fault}
    (h : act c = .error fault d) :
    (act >>= next) c = .error fault d := by
  simp only [Bind.bind, EStateM.bind, h]

/- The value of a reader and the cursor behind it. -/
def value? (act : Scan α) (c : Cursor) : Option (α × Cursor) :=
  match act c with
  | .ok a d => some (a, d)
  | .error _ _ => none

theorem value?_eq_some_iff
    {act : Scan α}
    {c d : Cursor}
    {a : α} :
    value? act c = some (a, d) ↔ act c = .ok a d := by
  unfold value?
  cases act c with
  | ok b e => simp
  | error fault e => simp

@[simp]
theorem value?_pure (a : α) (c : Cursor) :
    value? (pure a) c = some (a, c) :=
  rfl

@[simp]
theorem value?_bind
    (act : Scan α)
    (next : α → Scan β)
    (c : Cursor) :
    value? (act >>= next) c =
      (value? act c).bind fun (a, d) => value? (next a) d := by
  unfold value?
  cases hAct : act c with
  | ok a d =>
      rw [bind_eq_of_ok hAct]
      rfl
  | error fault d =>
      rw [bind_eq_error hAct]
      rfl

/- Two readers give a value together if each does where it starts. -/
theorem value?_bind_eq_some_iff
    {act : Scan α}
    {next : α → Scan β}
    {c e : Cursor}
    {b : β} :
    value? (act >>= next) c = some (b, e) ↔
      ∃ a d, value? act c = some (a, d) ∧
        value? (next a) d = some (b, e) := by
  rw [value?_bind, Option.bind_eq_some_iff, Prod.exists]

@[simp]
theorem value?_map
    (f : α → β)
    (act : Scan α)
    (c : Cursor) :
    value? (f <$> act) c =
      (value? act c).map fun (a, d) => (f a, d) := by
  simp only [value?, Functor.map, EStateM.map]
  cases act c with
  | ok a d => rfl
  | error fault d => rfl

@[simp]
theorem value?_fail (cause : Cause) (c : Cursor) :
    value? (fail cause : Scan α) c = none :=
  rfl

@[simp]
theorem value?_failAt (o : Nat) (cause : Cause) (c : Cursor) :
    value? (failAt o cause : Scan α) c = none :=
  rfl

@[simp]
theorem value?_peek? (c : Cursor) :
    value? peek? c = some (c.rest.head?, c) :=
  rfl

@[simp]
theorem value?_offset (c : Cursor) :
    value? offset c = some (c.offset, c) :=
  rfl

@[simp]
theorem value?_isAtEnd (c : Cursor) :
    value? isAtEnd c = some (c.rest.isEmpty, c) :=
  rfl

@[simp]
theorem value?_advance_cons (o : Nat) (x : Char) (xs : List Char) :
    value? advance ⟨o, x :: xs⟩ = some ((), ⟨o + x.utf8Size, xs⟩) :=
  rfl

@[simp]
theorem value?_skipBlanks (c : Cursor) :
    value? skipBlanks c = some (c.atBlank, c.skipBlanks) :=
  rfl

@[simp]
theorem value?_remainder (c : Cursor) :
    value? remainder c = some (c.rest, c.toEnd) :=
  rfl

@[simp]
theorem value?_within
    (part : Cursor)
    (act : Scan α)
    (c : Cursor) :
    value? (within part act) c =
      (value? act part).map fun (a, _) => (a, c) := by
  simp only [value?, within]
  cases act part with
  | ok a d => rfl
  | error fault d => rfl

@[simp]
theorem value?_ofExcept (result : Except Fault α) (c : Cursor) :
    value? (ofExcept result) c =
      result.toOption.map fun a => (a, c) := by
  cases result with
  | ok a => rfl
  | error fault => rfl

@[simp]
theorem value?_expectEnd (place : EndOf) (c : Cursor) :
    value? (expectEnd place) c =
      if c.rest.isEmpty then some ((), c) else none := by
  rcases c with ⟨o, rest⟩
  cases rest with
  | nil => rfl
  | cons x xs => rfl

theorem value?_chomp (text : String) (c : Cursor) :
    value? (chomp text) c =
      match c.chomp? text.toList with
      | some d => some (true, d)
      | none => some (false, c) := by
  unfold value? chomp
  cases c.chomp? text.toList with
  | some d => rfl
  | none => rfl

/- A pattern is what its text writes. -/
theorem value?_pattern
    (p : Pattern E)
    (o : Nat)
    (c : Cursor) :
    value? (pattern E o p.ignoreCase p.source) c = some (p, c) := by
  have hRead : Pattern.read? E p.ignoreCase p.source = some p := by
    unfold Pattern.read?
    split
    · next m hMatcher =>
        rw [Option.some.injEq, Pattern.eq_iff]
        exact ⟨rfl, rfl⟩
    · next hNone =>
        rw [p.reads] at hNone
        simp at hNone
  unfold pattern
  rw [hRead]
  rfl

------------------------------------------------------------
-- Loops
------------------------------------------------------------

variable {nested : Cursor → Except Fault (Selector E)}

/- A part is read if the next character begins one. -/
theorem value?_part?
    (parts : List (Selector E))
    (c : Cursor) :
    value? (part? nested parts) c =
      match c.rest.head?.bind (partStart? parts.isEmpty) with
      | some start =>
          (value? (partWith nested parts start) c).map
            fun (s, d) => (some s, d)
      | none => some (none, c) := by
  have hPeek : c.peek? = c.rest.head? := rfl
  unfold value? part?
  rw [hPeek]
  cases c.rest.head?.bind (partStart? parts.isEmpty) with
  | none => rfl
  | some start =>
      simp only [Functor.map, EStateM.map]
      cases partWith nested parts start c with
      | ok s d => rfl
      | error fault d => rfl

/- Parts are read one after the other. -/
theorem partsFrom_step
    (parts : List (Selector E))
    (c : Cursor) :
    partsFrom nested parts c =
      match part? nested parts c with
      | .ok (some s) d => partsFrom nested (parts ++ [s]) d
      | .ok none d => .ok parts d
      | .error fault d => .error fault d := by
  rw [partsFrom]
  split
  · next s d h =>
      conv => rhs; rw [h]
  · next d h => rw [h]
  · next fault d h => rw [h]

theorem value?_partsFrom
    (parts : List (Selector E))
    (c : Cursor) :
    value? (partsFrom nested parts) c =
      (value? (part? nested parts) c).bind fun
        | (some s, d) => value? (partsFrom nested (parts ++ [s])) d
        | (none, d) => some (parts, d) := by
  unfold value?
  rw [partsFrom_step]
  rcases part? nested parts c with ⟨_ | s, d⟩ | ⟨fault, d⟩
  · rfl
  · rfl
  · rfl

/- A compound is what the parts after none make up. -/
theorem value?_compound (c : Cursor) :
    value? (compound nested) c =
      (value? (partsFrom nested []) c).bind fun (parts, d) =>
        if parts.isEmpty then none else some (.ofParts parts, d) := by
  unfold compound
  refine (value?_bind (partsFrom nested []) _ c).trans ?_
  congr 1
  funext read
  by_cases hEmpty : read.1.isEmpty = true
  · simp [hEmpty]
  · simp [hEmpty]

/- The compounds of a chain are read one after the other. -/
theorem chainFrom_step
    (left : Selector E)
    (c : Cursor) :
    chainFrom nested left c =
      match next? nested c with
      | .ok (some (combinator, right)) d =>
          chainFrom nested (left.relate combinator right) d
      | .ok none d => .ok left d
      | .error fault d => .error fault d := by
  rw [chainFrom]
  split
  · next combinator right d h =>
      conv => rhs; rw [h]
  · next d h => rw [h]
  · next fault d h => rw [h]

theorem value?_chainFrom
    (left : Selector E)
    (c : Cursor) :
    value? (chainFrom nested left) c =
      (value? (next? nested) c).bind fun
        | (some (combinator, right), d) =>
            value? (chainFrom nested (left.relate combinator right)) d
        | (none, d) => some (left, d) := by
  unfold value?
  rw [chainFrom_step]
  rcases next? nested c with ⟨_ | ⟨combinator, right⟩, d⟩ | ⟨fault, d⟩
  · rfl
  · rfl
  · rfl

/- The scope stands before a chain that begins with a sign. -/
theorem value?_chain (c : Cursor) :
    value? (chain nested) c =
      if (c.rest.head?.bind combinator?).isSome then
        value? (chainFrom nested .scope) c
      else
        (value? (compound nested) c).bind fun (s, d) =>
          value? (chainFrom nested s) d := by
  have hPeek : c.peek? = c.rest.head? := rfl
  unfold chain
  rw [value?_bind, value?_peek?, Option.bind_some]
  by_cases hSign : (c.rest.head?.bind combinator?).isSome = true
  · simp only [hSign, ↓reduceIte]
  · simp only [hSign, ↓reduceIte, Bool.false_eq_true]
    exact value?_bind (compound nested) (chainFrom nested) c

/- So are the branches of a group. -/
theorem branchesFrom_step
    (branches : List (Selector E))
    (c : Cursor) :
    branchesFrom nested branches c =
      match branch nested c with
      | .ok (s, true) d => branchesFrom nested (branches ++ [s]) d
      | .ok (s, false) d => .ok (branches ++ [s]) d
      | .error fault d => .error fault d := by
  rw [branchesFrom]
  split
  · next s d h =>
      conv => rhs; rw [h]
  · next s d h => rw [h]
  · next fault d h => rw [h]

theorem value?_branchesFrom
    (branches : List (Selector E))
    (c : Cursor) :
    value? (branchesFrom nested branches) c =
      (value? (branch nested) c).bind fun
        | ((s, true), d) =>
            value? (branchesFrom nested (branches ++ [s])) d
        | ((s, false), d) => some (branches ++ [s], d) := by
  unfold value?
  rw [branchesFrom_step]
  rcases branch nested c with ⟨⟨s, _ | _⟩, d⟩ | ⟨fault, d⟩
  · rfl
  · rfl
  · rfl

/- A group is what the branches after none make up. -/
theorem value?_group (c : Cursor) :
    value? (group nested) c =
      (value? (branchesFrom nested []) c).map fun (branches, d) =>
        (.ofBranches branches, d) := by
  unfold group
  refine (value?_bind (branchesFrom nested []) _ c).trans ?_
  cases value? (branchesFrom nested []) c with
  | none => rfl
  | some read => rfl

/- A part of a query writes what its group gives. -/
theorem toOption_readPart (part : Cursor) :
    (readPart E part).toOption =
      (value? (group fun inner =>
        if inner.rest.length < part.rest.length then readPart E inner
        else .error ⟨.emptySelector, inner.offset⟩) part).map
          Prod.fst := by
  rw [readPart]
  simp only [value?]
  split
  · next s d h => simp [h, Except.toOption]
  · next fault d h => simp [h, Except.toOption]

end Scan

/- A query is read as what it is as a part of itself. -/
theorem Selector.read_eq_ok_iff
    {query : String}
    {s : Selector E} :
    read E query = .ok s ↔
      (Scan.readPart E (.before 0 query.toList)).toOption = some s := by
  unfold read
  cases Scan.readPart E (.before 0 query.toList) with
  | ok t => simp [Except.toOption]
  | error fault => simp [Except.toOption]

theorem Selector.readPart_of_read
    {query : String}
    {s : Selector E}
    (h : read E query = .ok s) :
    Scan.readPart E (.before 0 query.toList) = .ok s := by
  rw [read_eq_ok_iff] at h
  cases hPart : Scan.readPart E (.before 0 query.toList) with
  | error fault => simp [hPart, Except.toOption] at h
  | ok t => simpa [hPart, Except.toOption] using h

end TreeQuery
