import TreeQuery.Pattern.Standard
import TreeQuery.Proofs.Reading.Balance
import TreeQuery.Proofs.Trimming

/-
  Queries within `:has`, `:not` and `:is`.

  The end of an argument is found by its parentheses alone,
  before it is read.  So a query is read as an argument exactly
  if it closes the parentheses that it opens, also those that
  stand as they are in the value of an attribute.

  Main statements:
    * `Scan.readPart_around_iff`
    * `Scan.readPart_foldr_around_iff`
    * `Selector.nests_iff_isBalanced`
-/

namespace TreeQuery

variable {E : Engine}

------------------------------------------------------------
-- Texts of Nested Selectors
------------------------------------------------------------

namespace Nesting

/- There are no blanks around a colon and a closing parenthesis. -/
theorem trim_around
    (nesting : Nesting)
    (text : String) :
    Text.trim (nesting.around text).toList =
      (nesting.around text).toList := by
  have hColon : Text.isBlank ':' = false := by decide
  have hClosing : Text.isBlank ')' = false := by decide
  rcases nesting.toList_around text with ⟨name, hText, _⟩
  have hEnd :
      ':' :: (name.toList ++ '(' :: (text.toList ++ [')'])) =
        (':' :: (name.toList ++ '(' :: text.toList)) ++ [')'] := by
    simp
  rw [hText, Text.trim, Text.trimStart_of_unblank hColon, hEnd,
    Text.trimEnd_of_unblank hClosing]

/- What closes its parentheses does so at any depth. -/
theorem isBalanced_foldr_around
    (nestings : List Nesting)
    {text : String}
    (h : isBalanced '(' ')' text.toList = true) :
    isBalanced '(' ')' (nestings.foldr around text).toList = true := by
  induction nestings with
  | nil => exact h
  | cons nesting nestings ih =>
      have hNeat := nesting.isNeat_around (spans_of_isBalanced ih)
      exact hNeat.spans.isBalanced (by decide)

theorem wrap_injective (nesting : Nesting) :
    Function.Injective (nesting.wrap (E := E)) := by
  intro s s' hSame
  cases nesting with
  | has => simpa [wrap] using hSame
  | not => simpa [wrap] using hSame
  | is => simpa [wrap] using hSame

/- What is nested is a part of its own. -/
theorem isSimple_wrap
    (nesting : Nesting)
    (s : Selector E) :
    (nesting.wrap s).isSimple = true := by
  cases nesting with
  | has => rfl
  | not => rfl
  | is => rfl

end Nesting

------------------------------------------------------------
-- Selectors of One Part
------------------------------------------------------------

/- What stands alone was not made up of several parts. -/
theorem Selector.eq_singleton_of_ofParts
    {parts : List (Selector E)}
    (h : (ofParts parts).isSimple = true) :
    parts = [ofParts parts] := by
  cases parts with
  | nil => simp [ofParts, isSimple] at h
  | cons part parts =>
      cases parts with
      | nil => rfl
      | cons next parts => simp [ofParts, isSimple] at h

namespace Scan

/- A compound that is a part is the first part that is read. -/
theorem part?_of_compound
    {nested : Cursor → Except Fault (Selector E)}
    {c d : Cursor}
    {s : Selector E}
    (h : value? (compound nested) c = some (s, d))
    (hSimple : s.isSimple = true) :
    value? (part? nested []) c = some (some s, d) := by
  rw [value?_compound, Option.bind_eq_some_iff] at h
  rcases h with ⟨⟨parts, e⟩, hParts, hMake⟩
  dsimp only at hMake
  split at hMake
  · simp at hMake
  · cases hMake
    have hOne := Selector.eq_singleton_of_ofParts hSimple
    generalize Selector.ofParts parts = s at hOne
    cases hOne
    rw [value?_partsFrom, Option.bind_eq_some_iff] at hParts
    rcases hParts with ⟨⟨first, f⟩, hFirst, hRest⟩
    cases first with
    | none => simp at hRest
    | some t =>
        simp only [List.nil_append] at hRest
        rw [value?_partsFrom, Option.bind_eq_some_iff] at hRest
        rcases hRest with ⟨⟨second, g⟩, hSecond, hLast⟩
        cases second with
        | none =>
            rcases partStart?_of_part? (value?_eq_some_iff.1 hSecond) with
              ⟨rfl, _⟩
            cases hLast
            exact hFirst
        | some u =>
            rcases shape_partsFrom (fun _ _ _ => trivial)
                (value?_eq_some_iff.1 hLast) with
              ⟨more, hTwo, _⟩
            simp at hTwo

/- Nothing is read of blanks alone. -/
theorem rest_ne_nil_of_readPart
    {c : Cursor}
    {s : Selector E}
    (h : readPart E c = .ok s) :
    c.skipBlanks.rest ≠ [] := by
  intro hNil
  rcases readPart_eq_ok_iff.1 h with ⟨d, hGroup⟩
  rw [value?_group, value?_branchesFrom, value?_branch_eq, hNil] at hGroup
  simp at hGroup

/- What is read as a part is a part, between blanks. -/
theorem part?_of_readPart
    {c : Cursor}
    {s : Selector E}
    (h : readPart E c = .ok s)
    (hSimple : s.isSimple = true) :
    ∃ d, value? (part? (readPart E) []) c.skipBlanks = some (some s, d) ∧
      Text.AreBlanks d.rest := by
  have hSingle : ∀ branches, s ≠ .group branches := by
    rintro branches rfl
    simp [Selector.isSimple] at hSimple
  have hChainless : ∀ k l r, s ≠ .combine k l r := by
    rintro k l r rfl
    simp [Selector.isSimple] at hSimple
  rcases compound_of_readPart h hSingle hChainless with
    ⟨d, _, hCompound, hEnd⟩
  exact ⟨d, part?_of_compound hCompound hSimple,
    List.dropWhile_eq_nil_iff.1 hEnd⟩

/- An attribute test alone is a selector. -/
theorem readPart_of_attributeTest
    {o : Nat}
    {rest : List Char}
    {s : Selector E}
    {e : Nat}
    (h : attributeTest E ⟨o, '[' :: rest⟩ = .ok s ⟨e, []⟩) :
    readPart E ⟨o, '[' :: rest⟩ = .ok s := by
  have hPart :
      part? (readPart E) [] ⟨o, '[' :: rest⟩ = .ok (some s) ⟨e, []⟩ := by
    rw [← value?_eq_some_iff] at h ⊢
    rw [value?_part?_bracket, h]
    rfl
  rw [readPart_eq, group_of_part? (by decide) hPart]

------------------------------------------------------------
-- Reading Nested Selectors
------------------------------------------------------------

/-
  Where a text goes on behind a nested selector, the argument
  ends at the parenthesis that closes it, wherever that is.
-/
theorem content_of_part?_around
    {nesting : Nesting}
    {text : String}
    {more : List Char}
    {o : Nat}
    {s : Selector E}
    {d : Cursor}
    (h :
      value? (part? (readPart E) [])
          ⟨o, (nesting.around text).toList ++ more⟩ =
        some (some s, d)) :
    ∃ content t o', Spans '(' ')' content ∧
      text.toList ++ ')' :: more = content ++ ')' :: d.rest ∧
        readPart E ⟨o', Text.trim content⟩ = .ok t ∧ s = nesting.wrap t := by
  rcases nesting.toList_around text with ⟨name, hText, _, hKnown⟩
  have hWhole :
      (nesting.around text).toList ++ more =
        ':' :: (name.toList ++ '(' :: (text.toList ++ ')' :: more)) := by
    simp [hText]
  rw [hWhole, value?_part?_colon, Option.map_eq_some_iff] at h
  rcases h with ⟨⟨t, e⟩, hMeaning, hPair⟩
  cases hPair
  rw [value?_eq_some_iff, pseudoClass_named (readPart E) (hKnown E) rfl [] o]
    at hMeaning
  rcases bind_eq_ok_iff.1 hMeaning with ⟨part, f, hArgument, _⟩
  rcases argument_eq_ok_iff.1 hArgument with
    ⟨content, hSpans, _, hRest, _, hWindow⟩
  rw [meaning_nested nesting hArgument] at hMeaning
  cases hRead : readPart E part with
  | error fault => simp [hRead] at hMeaning
  | ok u =>
      simp only [hRead, EStateM.Result.ok.injEq] at hMeaning
      rcases hMeaning with ⟨rfl, rfl⟩
      exact ⟨content, u, _, hSpans, (List.cons.inj hRest).2,
        hWindow ▸ hRead, rfl⟩

/-
  The argument of what is read is the whole text between the
  parentheses, since a closing one is its last character.
-/
theorem spans_of_readPart_around
    {nesting : Nesting}
    {text : String}
    {o : Nat}
    {s : Selector E}
    (h :
      readPart E ⟨o, (nesting.around text).toList⟩ =
        .ok (nesting.wrap s)) :
    Spans '(' ')' text.toList ∧
      ∃ o', readPart E ⟨o', Text.trim text.toList⟩ = .ok s := by
  rcases nesting.toList_around text with ⟨name, hText, _⟩
  have hColon : Text.isBlank ':' = false := by decide
  rcases part?_of_readPart h (nesting.isSimple_wrap s) with
    ⟨d, hPart, hBlanks⟩
  rw [hText, Cursor.skipBlanks_cons_of_not hColon, ← hText,
    ← List.append_nil (nesting.around text).toList] at hPart
  rcases content_of_part?_around hPart with
    ⟨content, t, o', hSpans, hWhole, hRead, hSame⟩
  cases nesting.wrap_injective hSame
  have hNil : d.rest = [] := by
    rcases List.eq_nil_or_concat d.rest with hNil | ⟨ys, y, hLast⟩
    · exact hNil
    · have hEnd :
          text.toList ++ [')'] = (content ++ ')' :: ys) ++ [y] := by
        simpa [hLast] using hWhole
      have hBlank := hBlanks y (by simp [hLast])
      cases (List.append_inj' hEnd rfl).2
      exact absurd hBlank (by decide)
  rw [hNil] at hWhole
  rw [List.append_cancel_right hWhole]
  exact ⟨hSpans, o', hRead⟩

/-
  A selector is read as an argument exactly if it closes its
  parentheses and is read without its outer blanks.
-/
theorem readPart_around_iff
    (nesting : Nesting)
    {text : String}
    {o o' : Nat}
    {s : Selector E} :
    readPart E ⟨o, (nesting.around text).toList⟩ = .ok (nesting.wrap s) ↔
      isBalanced '(' ')' text.toList = true ∧
        readPart E ⟨o', Text.trim text.toList⟩ = .ok s := by
  constructor
  · intro h
    rcases spans_of_readPart_around h with ⟨hSpans, o₂, hRead⟩
    refine ⟨hSpans.isBalanced (by decide), (readPart_of_rest ?_).1 hRead⟩
    rfl
  · rintro ⟨hText, hRead⟩
    have hSome : Text.trim text.toList ≠ [] := by
      intro hNil
      rw [hNil] at hRead
      exact rest_ne_nil_of_readPart hRead rfl
    have hInner :
        readPart E
          ⟨(Cursor.skipBlanks
              ⟨o + Text.byteLength nesting.opening.toList,
                text.toList⟩).offset,
            Text.trim text.toList⟩ = .ok s := by
      refine (readPart_of_rest ?_).1 hRead
      rfl
    rcases part?_around (readPart E) nesting hText hSome o with ⟨e, hPart⟩
    rcases nesting.toList_around text with ⟨name, hSplit, _⟩
    rw [hInner, hSplit] at hPart
    rw [readPart_eq, hSplit, group_of_part? (by decide) hPart]

/-
  So it is at any depth.  What is nested once has no outer
  blanks and closes its parentheses, so only the innermost
  selector matters.
-/
theorem readPart_foldr_around_iff
    (nestings : List Nesting)
    {text : String}
    {o o' : Nat}
    {s : Selector E}
    (hRead : readPart E ⟨o', Text.trim text.toList⟩ = .ok s) :
    readPart E ⟨o, Text.trim (nestings.foldr Nesting.around text).toList⟩ =
        .ok (nestings.foldr Nesting.wrap s) ↔
      nestings = [] ∨ isBalanced '(' ')' text.toList = true := by
  induction nestings with
  | nil =>
      refine iff_of_true ((readPart_of_rest ?_).1 hRead) (.inl rfl)
      rfl
  | cons nesting nestings ih =>
      rw [List.foldr_cons, List.foldr_cons, Nesting.trim_around,
        readPart_around_iff nesting, ih]
      constructor
      · rintro ⟨hText, rfl | hInner⟩
        · exact .inr hText
        · exact .inr hInner
      · rintro (hNil | hInner)
        · simp at hNil
        · exact ⟨Nesting.isBalanced_foldr_around nestings hInner,
            .inr hInner⟩

end Scan

------------------------------------------------------------
-- Nested Queries
------------------------------------------------------------

namespace Selector

/-
  A query that is read is read within others, at any depth,
  exactly if it closes the parentheses that it opens outside of
  quotes and escapes.  It does so if no attribute value has a
  parenthesis.  The blanks at its end are not part of it, so
  none of them may be taken into a name.
-/
theorem nests_iff_isBalanced
    {nestings : List Nesting}
    (hNested : nestings ≠ [])
    {query : String}
    {s : Selector E}
    (hRead : read E query = .ok s)
    (hTaken :
      takesBlank false (Text.trim query.toList)
        (Text.endBlanks query.toList) = false) :
    (read E (nestings.foldr Nesting.around query) =
        .ok (nestings.foldr Nesting.wrap s) ↔
      isBalanced '(' ')' query.toList = true) ∧
      (s.isParenFree = true →
        read E (nestings.foldr Nesting.around query) =
          .ok (nestings.foldr Nesting.wrap s)) := by
  have hPart : Scan.readPart E ⟨0, query.toList⟩ = .ok s :=
    read_eq_ok_iff_readPart.1 hRead
  have hTrimmed : Scan.readPart E ⟨0, Text.trim query.toList⟩ = .ok s :=
    (Scan.readPart_trim hTaken).2 hPart
  have hOuter :
      Text.trim (nestings.foldr Nesting.around query).toList =
        (nestings.foldr Nesting.around query).toList := by
    cases nestings with
    | nil => exact absurd rfl hNested
    | cons nesting nestings => exact nesting.trim_around _
  have hIff :
      read E (nestings.foldr Nesting.around query) =
          .ok (nestings.foldr Nesting.wrap s) ↔
        isBalanced '(' ')' query.toList = true := by
    rw [read_eq_ok_iff_readPart, ← hOuter,
      Scan.readPart_foldr_around_iff nestings hTrimmed]
    simp [hNested]
  refine ⟨hIff, fun hFree => hIff.2 ?_⟩
  exact (Scan.spans_of_readPart hPart hFree).isBalanced (by decide)

/-
  In the value of `[a='(']` the parenthesis does not count, and
  the value of `[a=b]` has none.
-/
theorem nests_iff_isBalanced_quoted :
    [Nesting.has, Nesting.not] ≠ [] ∧
      read .standard "[a='(']" = .ok (.attr "a" (.compare .equal "(")) ∧
        takesBlank false (Text.trim "[a='(']".toList)
            (Text.endBlanks "[a='(']".toList) = false ∧
          read .standard ":has(:not([a='(']))" =
              .ok (.has (.not (.attr "a" (.compare .equal "(")))) ∧
            read .standard ":has(:not([a=b]))" =
              .ok (.has (.not (.attr "a" (.compare .equal "b")))) := by
  have hNested : [Nesting.has, Nesting.not] ≠ [] := by simp
  have hTest :
      Scan.attributeTest .standard ⟨0, "[a='(']".toList⟩ =
        .ok (.attr "a" (.compare .equal "(")) ⟨7, []⟩ := by
    have hCut :
        Scan.balanced '[' ']' .unterminatedAttribute
            ⟨0, "[a='(']".toList⟩ =
          .ok ⟨1, "a='('".toList⟩ ⟨7, []⟩ := by
      with_unfolding_all rfl
    have hInside :
        Scan.bracketed .standard ⟨1, "a='('".toList⟩ =
          .ok (.attr "a" (.compare .equal "(")) ⟨6, []⟩ := by
      with_unfolding_all rfl
    rw [Scan.attributeTest, Scan.bind_eq_of_ok hCut, Scan.within, hInside]
  have hQuoted :
      read .standard "[a='(']" = .ok (.attr "a" (.compare .equal "(")) :=
    read_eq_ok_iff_readPart.2 (Scan.readPart_of_attributeTest hTest)
  have hTaken :
      takesBlank false (Text.trim "[a='(']".toList)
        (Text.endBlanks "[a='(']".toList) = false := by
    with_unfolding_all rfl
  have hBare :
      read .standard "[a=b]" = .ok (.attr "a" (.compare .equal "b")) := by
    with_unfolding_all rfl
  have hTaken' :
      takesBlank false (Text.trim "[a=b]".toList)
        (Text.endBlanks "[a=b]".toList) = false := by
    with_unfolding_all rfl
  have hIff := (nests_iff_isBalanced hNested hQuoted hTaken).1
  have hFree := (nests_iff_isBalanced hNested hBare hTaken').2
  exact ⟨hNested, hQuoted, hTaken, hIff.2 (by decide), hFree (by decide)⟩

/- The bare parenthesis in the value is not closed. -/
theorem not_nests_bare_parenthesis :
    read .standard "[a=(]" = .ok (.attr "a" (.compare .equal "(")) ∧
      read .standard (Nesting.is.around "[a=(]") ≠
        .ok (Nesting.is.wrap (.attr "a" (.compare .equal "("))) := by
  have hInner :
      read .standard "[a=(]" = .ok (.attr "a" (.compare .equal "(")) := by
    with_unfolding_all rfl
  have hOuter :
      read .standard (Nesting.is.around "[a=(]") =
        .error ⟨⟨.unclosed .unbalancedParenthesis '(' ')', 3⟩,
          ":is([a=(])"⟩ := by
    with_unfolding_all rfl
  refine ⟨hInner, ?_⟩
  rw [hOuter]
  simp

end Selector

end TreeQuery
