import TreeQuery.Pattern.Standard
import TreeQuery.Proofs.Reading.Literal

/-
  Texts in quotes and without them.

  Whatever is put in quotes is read back as it was, wherever
  the quotes stand.  What is written bare is read as it is
  written in quotes only where both readers of escapes agree.

  Key definitions include:
    * `Text.replaceAll`

  Main statements:
    * `Text.escapeQuoted_eq_replaceAll`
    * `Selector.quoted_texts_are_read_back`
    * `Selector.bare_texts_are_quoted_texts_iff`
-/

namespace TreeQuery

variable {E : Engine}

------------------------------------------------------------
-- Texts in Quotes
------------------------------------------------------------

namespace Text

/- Every occurrence of a character is replaced by a text. -/
def replaceAll (c : Char) (written text : List Char) : List Char :=
  text.flatMap fun d => if d = c then written else [d]

/- Marking replaces backslashes first, then quotes. -/
theorem escapeQuoted_eq_replaceAll (text : List Char) :
    escapeQuoted text =
      replaceAll '"' ['\\', '"'] (replaceAll '\\' ['\\', '\\'] text) := by
  induction text with
  | nil => rfl
  | cons c text ih =>
      rw [replaceAll, replaceAll, List.flatMap_cons, List.flatMap_append,
        ← replaceAll, ← replaceAll, escapeQuoted, ih]
      by_cases hSlash : c = '\\'
      · simp [hSlash, replaceAll]
      · by_cases hQuote : c = '"'
        · simp [hQuote, replaceAll]
        · simp [hSlash, hQuote, replaceAll]

end Text

namespace Selector

/- A neat query is read alike within others. -/
theorem read_foldr_around
    {query : String}
    {s : Selector E}
    (hNeat : IsNeat query.toList)
    (hRead : read E query = .ok s)
    (nestings : List Nesting) :
    read E (nestings.foldr Nesting.around query) =
      .ok (nestings.foldr Nesting.wrap s) := by
  rw [read_eq_ok_iff_readPart] at hRead ⊢
  have hInner :
      Scan.readPart E ⟨0 + Nesting.bytesBefore nestings, query.toList⟩ =
        .ok s := by
    refine (Scan.readPart_of_rest ?_).1 hRead
    rfl
  rw [(Scan.readPart_foldr_around nestings hNeat 0).2, hInner]
  rfl

section Literals

variable {written value : String}

/- The value of a comparison is what its text is read as. -/
theorem read_equal_of_literal?
    (hSome : written ≠ "")
    (hStarts : startsUnblank written.toList = true)
    (hSpans : Spans '[' ']' written.toList)
    (h : literal? written.toList = some value.toList) :
    read E ("[a=" ++ written ++ "]") =
      .ok (.attr "a" (.compare .equal value)) := by
  have hName : "[a=" = "[" ++ "a" ++ Comparison.equal.sign := rfl
  rw [hName]
  exact read_compare_of_literal? ⟨by decide, rfl⟩ (by decide)
    (fun _ => rfl) hSome hStarts hSpans h

/- So is what is looked for in whole texts. -/
theorem read_containsWhole_of_literal?
    (hSpans : Spans '(' ')' written.toList)
    (hSome : Text.trim written.toList ≠ [])
    (h : literal? (Text.trim written.toList) = some value.toList)
    (hFilled :
      (Text.trim written.toList).head?.any isQuote = true → value ≠ "") :
    read E (":containsWholeText(" ++ written ++ ")") =
      .ok (.containsText .whole value) := by
  have hName :
      ":containsWholeText(" =
        ":contains" ++ TextSource.whole.ending ++ "(" :=
    rfl
  have hRead :=
    read_containsText_of_literal? (E := E) hSpans hSome h hFilled .whole
  rwa [← hName] at hRead

/- Both are read from a text between quotes. -/
theorem read_of_quotes
    {text : List Char}
    (hText : written.toList = '"' :: (text ++ ['"']))
    (hSpans : ∀ {opening closing}, Spans opening closing written.toList)
    (h : literal? written.toList = some value.toList) :
    read E ("[a=" ++ written ++ "]") =
        .ok (.attr "a" (.compare .equal value)) ∧
      (value ≠ "" →
        read E (":containsWholeText(" ++ written ++ ")") =
          .ok (.containsText .whole value)) := by
  have hUnblank : Text.isBlank '"' = false := by decide
  have hSome : written ≠ "" := by
    rintro rfl
    simp at hText
  have hStarts : startsUnblank written.toList = true := by
    simp [startsUnblank, hText, hUnblank]
  have hNeat : IsNeat written.toList :=
    ⟨hSpans, ⟨_, _, hText, hUnblank⟩,
      ⟨'"' :: text, '"', by simp [hText], hUnblank⟩⟩
  refine ⟨read_equal_of_literal? hSome hStarts hSpans h, fun hFilled => ?_⟩
  refine read_containsWhole_of_literal? hSpans ?_ ?_ fun _ => hFilled
  · rw [hNeat.trim_eq, hText]
    simp
  · rw [hNeat.trim_eq, h]

end Literals

section Quoted

variable (E) (value : String)

/- A quoted text is read as what it quotes. -/
theorem read_quoted :
    read E ("[a=" ++ Text.quoted value ++ "]") =
        .ok (.attr "a" (.compare .equal value)) ∧
      (value ≠ "" →
        read E (":containsWholeText(" ++ Text.quoted value ++ ")") =
          .ok (.containsText .whole value)) := by
  have hText :
      (Text.quoted value).toList =
        '"' :: (Text.escapeQuoted value.toList ++ ['"']) := by
    simp [Text.quoted]
  exact read_of_quotes hText (spans_quoted value) (literal?_quoted value)

/- Whatever it quotes, parentheses pass over it. -/
theorem isNeat_around_quoted :
    IsNeat ("[a=" ++ Text.quoted value ++ "]").toList ∧
      IsNeat (":containsWholeText(" ++ Text.quoted value ++ ")").toList := by
  have hOpening : IsNeat "[a=".toList :=
    isNeat_of_all (by decide) (by decide)
  have hClosing : IsNeat "]".toList := isNeat_of_all (by decide) (by decide)
  have hCall : IsNeat (":containsWholeText".toList ++
      ('(' :: (Text.quoted value).toList ++ [')'])) :=
    isNeat_call (by decide) (List.all_iff_forall_prop.1 (by decide))
      (spans_quoted value)
  refine ⟨?_, by simpa using hCall⟩
  simpa using hOpening.join (spans_quoted value) hClosing

/-
  What is put in quotes, with its backslashes and then its
  quotes marked, is read back as it was, and the reader stops
  right behind it.  So the value of a comparison is read, and
  what is looked for if it is not empty, also within any number
  of other selectors.
-/
theorem quoted_texts_are_read_back :
    (Text.quoted value).toList =
        '"' :: Text.replaceAll '"' ['\\', '"']
          (Text.replaceAll '\\' ['\\', '\\'] value.toList) ++ ['"'] ∧
      (∀ (o : Nat) (rest : List Char),
        Scan.quoted true ⟨o, (Text.quoted value).toList ++ rest⟩ =
          .ok value
            ⟨o + Text.byteLength (Text.quoted value).toList, rest⟩) ∧
      ∀ nestings : List Nesting,
        read E (nestings.foldr Nesting.around
              ("[a=" ++ Text.quoted value ++ "]")) =
            .ok (nestings.foldr Nesting.wrap
              (.attr "a" (.compare .equal value))) ∧
          (value ≠ "" →
            read E (nestings.foldr Nesting.around
                (":containsWholeText(" ++ Text.quoted value ++ ")")) =
              .ok (nestings.foldr Nesting.wrap
                (.containsText .whole value))) := by
  rcases read_quoted E value with ⟨hEqual, hContains⟩
  rcases isNeat_around_quoted value with ⟨hNeatEqual, hNeatContains⟩
  refine ⟨?_, fun o rest => Scan.quoted_quoted value rest o,
    fun nestings => ⟨?_, fun hSome => ?_⟩⟩
  · rw [← Text.escapeQuoted_eq_replaceAll, Text.quoted,
      String.toList_ofList]
  · exact read_foldr_around hNeatEqual hEqual nestings
  · exact read_foldr_around hNeatContains (hContains hSome) nestings

end Quoted

/- Quotes, backslashes and brackets do not end the text. -/
theorem quoted_texts_are_read_back_brackets :
    "\"\\)]" ≠ "" ∧
      read .standard ":is(:not(:containsWholeText(\"\\\"\\\\)]\")))" =
        .ok (.is (.not (.containsText .whole "\"\\)]"))) := by
  have hSome : "\"\\)]" ≠ "" := by decide
  exact ⟨hSome,
    ((quoted_texts_are_read_back .standard "\"\\)]").2.2 [.is, .not]).2 hSome⟩

------------------------------------------------------------
-- Bare Texts
------------------------------------------------------------

section Bare

variable (E) {text : String} (hBare : Text.IsBare text.toList)

include hBare

/- A bare text is read without backslashes and end blanks. -/
theorem read_bare :
    read E ("[a=" ++ text ++ "]") =
        .ok (.attr "a" (.compare .equal (String.ofList
          (Text.dropBackslashes (Text.trimEnd text.toList))))) ∧
      read E (":containsWholeText(" ++ text ++ ")") =
        .ok (.containsText .whole (String.ofList
          (Text.dropBackslashes (Text.trimEnd text.toList)))) := by
  have hSome : text ≠ "" := by
    rintro rfl
    exact hBare.filled rfl
  have hHead :
      (Text.trim text.toList).head?.any isQuote = false := by
    rw [hBare.trim_eq]
    exact hBare.head_not_quote (Text.trimEnd_prefix text.toList)
  rcases hBare.literal?_eq with ⟨hWhole, hTrimmed⟩
  refine ⟨?_, ?_⟩
  · exact read_equal_of_literal? hSome hBare.starts (hBare.spans rfl)
      (by rw [hWhole, String.toList_ofList])
  · refine read_containsWhole_of_literal? (hBare.spans rfl)
      hBare.trim_ne_nil ?_ ?_
    · rw [hTrimmed, String.toList_ofList]
    · simp [hHead]

/- In quotes it is read as something that resembles this. -/
theorem read_in_quotes :
    ∃ value : String,
      readQuoted '"' (text.toList ++ ['"']) = .closed value.toList [] ∧
        read E ("[a=" ++ ("\"" ++ text ++ "\"") ++ "]") =
            .ok (.attr "a" (.compare .equal value)) ∧
          read E (":containsWholeText(" ++ ("\"" ++ text ++ "\"") ++ ")") =
              .ok (.containsText .whole value) ∧
            Text.Resembles value.toList text.toList := by
  have hQuote : isQuote '"' = true := by decide
  rcases exists_readQuoted hBare.not_mem_quote hBare.closed [] with
    ⟨content, hRead, hSame, hFilled⟩
  have hText :
      ("\"" ++ text ++ "\"").toList = '"' :: (text.toList ++ ['"']) := by
    simp
  have hLiteral :
      literal? ("\"" ++ text ++ "\"").toList =
        some (String.ofList content).toList := by
    rw [hText, literal?, if_pos hQuote, hRead, String.toList_ofList]
  have hSpans :
      ∀ {opening closing},
        Spans opening closing ("\"" ++ text ++ "\"").toList := by
    intro opening closing
    rw [hText]
    exact hBare.spans_in_quotes
  have hSome : String.ofList content ≠ "" := by
    intro hNil
    exact hBare.filled (hFilled (by simpa using hNil))
  rcases read_of_quotes hText hSpans hLiteral with ⟨hEqual, hContains⟩
  refine ⟨String.ofList content, ?_, hEqual, hContains hSome, ?_⟩
  · rw [hRead, String.toList_ofList]
  · rwa [String.toList_ofList]

/-
  A text that does not begin with a blank, has no quotes and no
  brackets, and marks a character with every backslash is read
  bare and in quotes.  Bare it is trimmed and its backslashes
  are dropped, in quotes its escapes are resolved.  Both give
  the same value exactly if none of the escapes names a
  character by its code and no blank is at the end of the text.
-/
theorem bare_texts_are_quoted_texts_iff :
    ∃ bare quoted : String,
      (bare.toList = Text.dropBackslashes (Text.trimEnd text.toList) ∧
          read E ("[a=" ++ text ++ "]") =
              .ok (.attr "a" (.compare .equal bare)) ∧
            read E (":containsWholeText(" ++ text ++ ")") =
              .ok (.containsText .whole bare)) ∧
        (readQuoted '"' (text.toList ++ ['"']) =
              .closed quoted.toList [] ∧
            read E ("[a=\"" ++ text ++ "\"]") =
                .ok (.attr "a" (.compare .equal quoted)) ∧
              read E (":containsWholeText(\"" ++ text ++ "\")") =
                .ok (.containsText .whole quoted)) ∧
          (bare = quoted ↔
            Text.namesCode text.toList = false ∧
              Text.endBlanks text.toList = []) := by
  have hEqualText :
      "[a=\"" ++ text ++ "\"]" =
        "[a=" ++ ("\"" ++ text ++ "\"") ++ "]" := by
    apply String.toList_injective
    simp
  have hContainsText :
      ":containsWholeText(\"" ++ text ++ "\")" =
        ":containsWholeText(" ++ ("\"" ++ text ++ "\"") ++ ")" := by
    apply String.toList_injective
    simp
  rcases read_bare E hBare with ⟨hEqual, hContains⟩
  rcases read_in_quotes E hBare with
    ⟨value, hRead, hEqual', hContains', hSame⟩
  rw [← hEqualText] at hEqual'
  rw [← hContainsText] at hContains'
  refine ⟨_, value, ⟨String.toList_ofList, hEqual, hContains⟩,
    ⟨hRead, hEqual', hContains'⟩, ?_⟩
  rw [← hSame.eq_iff, ← String.toList_inj, String.toList_ofList]

end Bare

/- An escape that names no code is read alike. -/
theorem bare_texts_are_quoted_texts_iff_colon :
    Text.IsBare "x\\:y z".toList ∧
      read .standard "[a=x\\:y z]" = read .standard "[a=\"x\\:y z\"]" ∧
        read .standard ":containsWholeText(x\\:y z)" =
          read .standard ":containsWholeText(\"x\\:y z\")" := by
  have hBare : Text.IsBare "x\\:y z".toList :=
    ⟨by decide, by decide, List.all_iff_forall_prop.1 (by decide),
      by decide⟩
  rcases bare_texts_are_quoted_texts_iff .standard hBare with
    ⟨bare, quoted, ⟨_, hEqual, hContains⟩, ⟨_, hEqual', hContains'⟩, hIff⟩
  have hSame : bare = quoted := hIff.2 ⟨by decide, by decide⟩
  subst hSame
  exact ⟨hBare, hEqual.trans hEqual'.symm, hContains.trans hContains'.symm⟩

/-
  In quotes `\41` is the letter with this code, and an escaped
  blank at the end is kept.
-/
theorem bare_texts_differ_from_quoted_texts :
    Text.IsBare "\\41".toList ∧
      read .standard "[a=\\41]" = .ok (.attr "a" (.compare .equal "41")) ∧
        read .standard "[a=\"\\41\"]" =
          .ok (.attr "a" (.compare .equal "A")) ∧
      Text.IsBare "x\\ ".toList ∧
        read .standard ":containsWholeText(x\\ )" =
          .ok (.containsText .whole "x") ∧
          read .standard ":containsWholeText(\"x\\ \")" =
            .ok (.containsText .whole "x ") := by
  have hCode : Text.IsBare "\\41".toList :=
    ⟨by decide, by decide, List.all_iff_forall_prop.1 (by decide),
      by decide⟩
  have hBlank : Text.IsBare "x\\ ".toList :=
    ⟨by decide, by decide, List.all_iff_forall_prop.1 (by decide),
      by decide⟩
  have hCodeText :
      "\"\\41\"".toList = '"' :: ("\\41".toList ++ ['"']) :=
    rfl
  have hBlankText :
      "\"x\\ \"".toList = '"' :: ("x\\ ".toList ++ ['"']) :=
    rfl
  have hCodeRead : literal? "\"\\41\"".toList = some "A".toList := by
    with_unfolding_all rfl
  have hBlankRead : literal? "\"x\\ \"".toList = some "x ".toList := by
    with_unfolding_all rfl
  refine ⟨hCode, ?_, ?_, hBlank, ?_, ?_⟩
  · exact (read_bare .standard hCode).1
  · exact (read_of_quotes hCodeText hCode.spans_in_quotes hCodeRead).1
  · exact (read_bare .standard hBlank).2
  · exact (read_of_quotes hBlankText hBlank.spans_in_quotes hBlankRead).2
      (by decide)

end Selector

end TreeQuery
