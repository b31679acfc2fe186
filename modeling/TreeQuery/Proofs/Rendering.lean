import TreeQuery.Pattern.Standard
import TreeQuery.Proofs.Reading.Chain

/-
  What becomes of a selector that is written and read again.

  The text of a plain selector is read as that selector, with
  the candidates that are not written.  Only an empty needle
  is in the way, which quotes cannot ask for.  The text of a
  legible selector is never read as another one; names and
  patterns that hold signs of the grammar, written as they
  are, can be.

  Main statements:
    * `Selector.read_text_iff_isFilled`
    * `Selector.eq_of_read_text`
    * `Selector.position_is_read_again`
-/

namespace TreeQuery.Selector

variable {E : Engine}

theorem isWritten_of_read
    {query : String}
    {s : Selector E}
    (hRead : read E query = .ok s) :
    IsWritten s := by
  refine ⟨.before 0 query.toList, ?_⟩
  unfold read at hRead
  cases hPart : Scan.readPart E (.before 0 query.toList) with
  | ok t => simpa [hPart] using hRead
  | error fault => simp [hPart] at hRead

/- A legible text is read as what it was written for, or not at all. -/
theorem read_text_eq_ok_iff
    {query : String}
    {s t : Selector E}
    (hRead : read E query = .ok s)
    (hLegible : s.isLegible = true) :
    read E s.text = .ok t ↔ s.isFilled = true ∧ t = s := by
  have hBack := ((isWritten_of_read hRead).readsBack_readPart hLegible).2 0
  rw [read_eq_ok_iff]
  change (Scan.readPart E ⟨0, s.text.toList⟩).toOption = some t ↔ _
  rw [hBack]
  by_cases hFilled : s.isFilled = true
  · rw [if_pos hFilled, Option.some.injEq]
    constructor
    · intro hSame
      exact ⟨hFilled, hSame.symm⟩
    · intro hSame
      exact hSame.2.symm
  · rw [if_neg hFilled]
    simp [hFilled]

------------------------------------------------------------
-- Plain Selectors
------------------------------------------------------------

/-
  The text of a plain selector that was read is read again
  exactly if none of its needles is empty.  It is then read as
  the same selector, its candidates included, and has the same
  text.
-/
theorem read_text_iff_isFilled
    {query : String}
    {s : Selector E}
    (hRead : read E query = .ok s)
    (hPlain : s.isPlain = true) :
    (read E s.text = .ok s ↔ s.isFilled = true) ∧
      ∀ t, read E s.text = .ok t → t = s ∧ t.text = s.text := by
  have hLegible :=
    ((isWritten_of_read hRead).legible_of_isPlain hPlain).1
  constructor
  · rw [read_text_eq_ok_iff hRead hLegible]
    constructor
    · intro hBoth
      exact hBoth.1
    · intro hFilled
      exact ⟨hFilled, rfl⟩
  · intro t hAgain
    rcases (read_text_eq_ok_iff hRead hLegible).1 hAgain with ⟨_, rfl⟩
    exact ⟨rfl, rfl⟩

/- A chain with an index and a selector within it is such a selector. -/
theorem read_text_iff_isFilled_chain :
    ∃ s,
      read .standard "ul > li:not(.a):eq(1)" = .ok s ∧ s.isPlain = true ∧
        ((read .standard s.text = .ok s ↔ s.isFilled = true) ∧
          ∀ t, read .standard s.text = .ok t → t = s ∧ t.text = s.text) := by
  have hRead :
      read .standard "ul > li:not(.a):eq(1)" =
        .ok (relate .child (.tag (.name "ul"))
          (.compound [.tag (.name "li"), .not (.className "a"),
            .index .equalTo 1
              (.compound [.tag (.name "li"), .not (.className "a")])])) := by
    with_unfolding_all rfl
  have hPlain :
      (relate .child (.tag (.name "ul"))
        (.compound [.tag (.name "li"), .not (.className "a"),
          .index .equalTo 1
            (.compound [.tag (.name "li"), .not (.className "a")])])
        : Selector .standard).isPlain = true := by
    decide
  exact ⟨_, hRead, hPlain, read_text_iff_isFilled hRead hPlain⟩

/-
  A needle that escapes make empty is written between quotes,
  where no empty needle may stand.
-/
theorem read_text_fails_of_escaped_blank :
    ¬ ∀ query s,
      read .standard query = .ok s → s.isPlain = true →
        read .standard s.text = .ok s := by
  intro hAll
  have hRead :
      read .standard ":containsWholeText(\\ )" =
        .ok (.containsText .whole "") := by
    with_unfolding_all rfl
  have hText :
      (read .standard
        (containsText .whole "" : Selector .standard).text).toOption.isNone =
          true := by
    with_unfolding_all rfl
  rw [hAll _ _ hRead (by decide)] at hText
  simp [Except.toOption] at hText

------------------------------------------------------------
-- Legible Selectors
------------------------------------------------------------

/- The text of a legible selector is never read as another one. -/
theorem eq_of_read_text
    {query : String}
    {s t : Selector E}
    (hRead : read E query = .ok s)
    (hLegible : s.isLegible = true)
    (hAgain : read E s.text = .ok t) :
    t = s :=
  ((read_text_eq_ok_iff hRead hLegible).1 hAgain).2

/- An escape that a name does not need is not needed again. -/
theorem eq_of_read_text_escaped_letter :
    ∃ s t,
      read .standard "#\\61  b" = .ok s ∧ s.isLegible = true ∧
        read .standard s.text = .ok t ∧ t = s := by
  have hRead :
      read .standard "#\\61  b" =
        .ok (relate .descendant (.id "a") (.tag (.name "b"))) := by
    with_unfolding_all rfl
  have hLegible :
      (relate .descendant (.id "a") (.tag (.name "b"))
        : Selector .standard).isLegible = true := by
    decide
  have hAgain :
      read .standard
          (relate .descendant (.id "a") (.tag (.name "b"))
            : Selector .standard).text =
        .ok (relate .descendant (.id "a") (.tag (.name "b"))) := by
    with_unfolding_all rfl
  exact ⟨_, _, hRead, hLegible, hAgain,
    eq_of_read_text hRead hLegible hAgain⟩

/- A pattern in quotes is written as it is and loses them. -/
theorem read_text_changes_quoted_pattern :
    ¬ ∀ query s t,
      read .standard query = .ok s →
        read .standard s.text = .ok t → t = s := by
  intro hAll
  have hText :
      (read .standard ":matches(\"'a'\")").toOption.map text =
        some ":matches('a')" := by
    with_unfolding_all rfl
  have hAgainText :
      (read .standard ":matches('a')").toOption.map text =
        some ":matches(a)" := by
    with_unfolding_all rfl
  cases hRead : read .standard ":matches(\"'a'\")" with
  | error fault => simp [hRead, Except.toOption] at hText
  | ok s =>
      cases hAgain : read .standard ":matches('a')" with
      | error fault => simp [hAgain, Except.toOption] at hAgainText
      | ok t =>
          simp only [hRead, Except.toOption, Option.map_some,
            Option.some.injEq] at hText
          simp only [hAgain, Except.toOption, Option.map_some,
            Option.some.injEq] at hAgainText
          rw [← hText] at hAgain
          rw [hAll _ s t hRead hAgain, hText] at hAgainText
          revert hAgainText
          decide

------------------------------------------------------------
-- Positions
------------------------------------------------------------

/- A position alone is a group, whatever its kind and formula. -/
theorem isGroup_position
    {P : Selector E → Prop}
    (kind : Position)
    (formula : Formula) :
    IsGroup P (.position kind formula) := by
  have hParts : ArePartsAfter P [] [.position kind formula] :=
    .cons .position .nil
  refine ⟨[.position kind formula], by simp, ?_, rfl⟩
  intro branch hMem
  rw [List.mem_singleton.1 hMem]
  exact .compound ⟨[.position kind formula], by simp, hParts, rfl⟩

/-
  The text of a formula is read as that formula, and the text
  of a position with it, the short ones included, as that
  position.
-/
theorem position_is_read_again
    (E : Engine)
    (kind : Position)
    (formula : Formula) :
    Formula.parse? formula.text = some formula ∧
      read E (.position kind formula : Selector E).text =
        .ok (.position kind formula) := by
  refine ⟨Formula.parse?_text formula, ?_⟩
  have hGroup :
      IsGroup (fun _ : Selector E => False) (.position kind formula) :=
    isGroup_position kind formula
  rcases (hGroup.value?_group (by simp) rfl (Nat.le_refl _) 0).2 with
    ⟨o', hRead⟩
  rw [read_eq_ok_iff]
  change (Scan.readPart E ⟨0, _⟩).toOption = _
  rw [Scan.toOption_readPart, hRead]
  rfl

end TreeQuery.Selector
