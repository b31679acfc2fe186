import TreeQuery.Reading.Group

/-
  The parts of a selector that are written.

  The candidates of an index are not written: they repeat what
  stands before it.  What is asked of the text of a selector
  is asked of its parts without them.

  Key definitions include:
    * `Selector.everyPart`

  Main statements:
    * `Selector.text_relate`
    * `Selector.everyPart_relate`
    * `Selector.operandText_cases`
-/

namespace TreeQuery.Selector

variable {E : Engine}

------------------------------------------------------------
-- Written Parts
------------------------------------------------------------

mutual

/- Every part of the selector that is written satisfies `p`. -/
@[simp]
def everyPart (p : Selector E → Bool) : Selector E → Bool
| .compound parts => everyPartOf p parts
| .group branches => everyPartOf p branches
| .not inner => p (.not inner) && inner.everyPart p
| .is inner => p (.is inner) && inner.everyPart p
| .has inner => p (.has inner) && inner.everyPart p
| .combine _ left right => left.everyPart p && right.everyPart p
| .index _ _ _ => true
| part => p part

/- So does every part of several selectors. -/
@[simp]
def everyPartOf (p : Selector E → Bool) : List (Selector E) → Bool
| [] => true
| s :: rest => s.everyPart p && everyPartOf p rest

end

theorem everyPartOf_eq_all
    (p : Selector E → Bool)
    (selectors : List (Selector E)) :
    everyPartOf p selectors = selectors.all (everyPart p) := by
  induction selectors with
  | nil => simp
  | cons s rest ih => simp [ih]

theorem everyPart_wrap
    (p : Selector E → Bool)
    (nesting : Nesting)
    (inner : Selector E) :
    (nesting.wrap inner).everyPart p =
      (p (nesting.wrap inner) && inner.everyPart p) := by
  cases nesting with
  | has => simp [Nesting.wrap]
  | not => simp [Nesting.wrap]
  | is => simp [Nesting.wrap]

theorem everyPart_ofParts
    (p : Selector E → Bool)
    (parts : List (Selector E)) :
    (ofParts parts).everyPart p = parts.all (everyPart p) := by
  rcases parts with _ | ⟨part, _ | ⟨next, parts⟩⟩
  · simp [ofParts]
  · simp [ofParts]
  · simp [ofParts, everyPartOf_eq_all]

theorem everyPart_ofBranches
    (p : Selector E → Bool)
    (branches : List (Selector E)) :
    (ofBranches branches).everyPart p = branches.all (everyPart p) := by
  rcases branches with _ | ⟨branch, _ | ⟨next, branches⟩⟩
  · simp [ofBranches]
  · simp [ofBranches]
  · simp [ofBranches, everyPartOf_eq_all]

theorem everyPart_anchorIndex
    (p : Selector E → Bool)
    (c : Combinator)
    (left s : Selector E) :
    (anchorIndex c left s).everyPart p = s.everyPart p := by
  cases s <;> simp [anchorIndex]

/- Candidates do not count, so relating adds the left operand only. -/
theorem everyPart_relate
    (p : Selector E → Bool)
    (c : Combinator)
    (left right : Selector E) :
    (left.relate c right).everyPart p =
      (left.everyPart p && right.everyPart p) := by
  have hRight : (anchorIndexes c left right).everyPart p =
      right.everyPart p := by
    cases right with
    | compound parts =>
        simp [anchorIndexes, everyPartOf_eq_all, Function.comp_def,
          everyPart_anchorIndex]
    | _ => simp [anchorIndexes, everyPart_anchorIndex]
  rw [relate, everyPart, hRight]

------------------------------------------------------------
-- Their Texts
------------------------------------------------------------

theorem text_ofParts (parts : List (Selector E)) :
    (ofParts parts).text = partsText parts := by
  rcases parts with _ | ⟨part, _ | ⟨next, parts⟩⟩
  · simp [ofParts, text]
  · simp [ofParts, partsText]
  · simp [ofParts, text]

theorem text_ofBranches (branches : List (Selector E)) :
    (ofBranches branches).text = branchesText branches := by
  rcases branches with _ | ⟨branch, _ | ⟨next, branches⟩⟩
  · simp [ofBranches, text]
  · simp [ofBranches, branchesText]
  · simp [ofBranches, text]

theorem text_anchorIndex
    (c : Combinator)
    (left s : Selector E) :
    (anchorIndex c left s).text = s.text := by
  cases s <;> simp [anchorIndex, text]

/- Relating writes the operands with the sign between them. -/
theorem text_relate
    (c : Combinator)
    (left right : Selector E) :
    (left.relate c right).text =
      operandText left c left.text ++ right.text := by
  have hRight : (anchorIndexes c left right).text = right.text := by
    cases right with
    | compound parts =>
        have hParts :
            partsText (parts.map (anchorIndex c left)) =
              partsText parts := by
          induction parts with
          | nil => simp [partsText]
          | cons part parts ih =>
              simp [partsText, ih, text_anchorIndex]
        simpa [anchorIndexes, text] using hParts
    | _ => simp [anchorIndexes, text_anchorIndex]
  rw [relate, text, hRight]

/- Three signs stand for combinators. -/
theorem mem_of_combinator?
    {x : Char}
    {c : Combinator}
    (h : combinator? x = some c) :
    x ∈ ['>', '+', '~'] := by
  unfold combinator? at h
  repeat' split at h
  all_goals simp_all

/- None of them is a blank or a comma. -/
theorem isBlank_of_combinator?
    {x : Char}
    {c : Combinator}
    (h : combinator? x = some c) :
    Text.isBlank x = false ∧ x ≠ ',' := by
  have hMem := mem_of_combinator? h
  simp only [List.mem_cons, List.not_mem_nil, or_false] at hMem
  rcases hMem with rfl | rfl | rfl
  · exact ⟨rfl, by simp⟩
  · exact ⟨rfl, by simp⟩
  · exact ⟨rfl, by simp⟩

/-
  The left operand is written with the sign behind it, or, if
  it is the scope, left out before a sign that stands first.
-/
theorem operandText_cases
    (left : Selector E)
    (c : Combinator)
    (leftText : String) :
    operandText left c leftText = leftText ++ c.sign ∨
      left = .scope ∧
        ∃ x, combinator? x = some c ∧
          (operandText left c leftText).toList = [x, ' '] := by
  unfold operandText
  split
  · next sign hScope hSign =>
      right
      have hLeft : left = .scope := by
        cases left with
        | scope => rfl
        | _ => simp [isScope] at hScope
      refine ⟨hLeft, ?_⟩
      cases c with
      | descendant => simp [Combinator.leadingSign?] at hSign
      | child =>
          simp only [Combinator.leadingSign?, Option.some.injEq] at hSign
          subst hSign
          exact ⟨'>', rfl, rfl⟩
      | adjacent =>
          simp only [Combinator.leadingSign?, Option.some.injEq] at hSign
          subst hSign
          exact ⟨'+', rfl, rfl⟩
      | sibling =>
          simp only [Combinator.leadingSign?, Option.some.injEq] at hSign
          subst hSign
          exact ⟨'~', rfl, rfl⟩
  · left
    rfl

end TreeQuery.Selector
