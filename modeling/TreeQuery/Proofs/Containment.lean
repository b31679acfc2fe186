import TreeQuery.Pattern.Standard
import TreeQuery.Proofs.Reading.Window
import TreeQuery.Proofs.Text.Sigma
import TreeQuery.Selector.Matching

/-
  Texts that are looked for in the texts of elements.

  The small letters of a text are looked for in the small
  letters of what an element holds.  A text that stands there
  as it was written is found, unless one of its capital sigmas
  ends a word on its own and not where it stands, or the other
  way round.

  Key definitions include:
    * `Tree.paragraph`

  Main statements:
    * `Selector.read_containsText_text`
    * `Selector.accepts_containsText_iff`
    * `Selector.occurrences_are_found_iff`
-/

namespace TreeQuery

variable {E : Engine}

------------------------------------------------------------
-- Reading
------------------------------------------------------------

namespace Selector

/- A text in quotes is read as its needle. -/
theorem read_containsText_text
    {text : String}
    (hSome : text ≠ "")
    (source : TextSource) :
    read E (":contains" ++ source.ending ++ "(" ++ Text.quoted text ++ ")") =
      .ok (.containsText source (Scan.needle source text)) := by
  have hFilled : ¬ text.isEmpty = true := by simpa using hSome
  rcases value?_part?_contains (Scan.readPart E) source text [] [] 0 with
    ⟨e, hPart⟩
  have hText :
      (.containsText source text : Selector E).text.toList =
        ':' :: (("contains" ++ source.ending).toList ++
          ('(' :: (Text.quoted text).toList ++ [')'])) := by
    simp [Selector.text]
  have hQuery :
      (.containsText source text : Selector E).text =
        ":contains" ++ source.ending ++ "(" ++ Text.quoted text ++ ")" := by
    rw [Selector.text]
  rw [if_neg hFilled, List.append_nil, hText] at hPart
  rw [← hQuery]
  exact read_of_part? hText (by decide) ⟨e, hPart⟩

end Selector

------------------------------------------------------------
-- Elements
------------------------------------------------------------

/- The needle of a normalised source is in small letters. -/
theorem Scan.toList_needle
    {source : TextSource}
    (hNormal : source.isNormalized = true)
    (text : String) :
    (Scan.needle source text).toList =
      Text.lowercase (Text.normalizeBlanks text.toList) := by
  rw [Scan.needle, if_pos hNormal, String.toList_ofList]

namespace Selector

variable {ctx : Context} {n : Node} {source : TextSource}

/- A needle is looked for in the small letters of what is read. -/
theorem accepts_containsText_iff
    (hElement : ctx.tree.isElement n = true)
    (hNormal : source.isNormalized = true)
    {needle : String} :
    (.containsText source needle : Selector E).accepts ctx n = true ↔
      needle.toList <:+:
        Text.lowercase (source.read ctx.tree n).toList := by
  rw [accepts, hElement, Bool.true_and, TextSource.contains]
  simp only [hNormal, ↓reduceIte, Text.occursIn_iff_infix]

end Selector

/- An element with nothing in it but a text. -/
def Tree.paragraph (text : List Char) : Tree :=
  .element (.unqualified "p") [] [.text (String.ofList text)]

theorem Tree.isElement_paragraph (text : List Char) :
    (Tree.paragraph text).isElement .root = true :=
  rfl

/- Its text is the only node in it. -/
theorem Tree.wholeText_paragraph (text : List Char) :
    (Tree.paragraph text).wholeText .root = String.ofList text ∧
      (Tree.paragraph text).wholeOwnText .root = String.ofList text := by
  have hRoot :
      (Tree.paragraph text).children .root = [.path [0]] :=
    rfl
  have hText : (Tree.paragraph text).children (.path [0]) = [] := rfl
  have hNodes :
      (Tree.paragraph text).descendantsOrSelf .root =
        [.root, .path [0]] := by
    simp [Tree.descendantsOrSelf, Tree.walk, hRoot, hText]
  have hJoin : String.join [String.ofList text] = String.ofList text := by
    simp [String.join]
  constructor
  · change String.join
      (((Tree.paragraph text).descendantsOrSelf .root).filterMap
        (Tree.paragraph text).textPart?) = _
    rw [hNodes]
    exact hJoin
  · rw [Tree.wholeOwnText, hRoot]
    exact hJoin

/- A normalised text is read as it is. -/
theorem Tree.read_paragraph
    {source : TextSource}
    (hNormal : source.isNormalized = true)
    {text : List Char}
    (hText : Text.normalizeBlanks text = text) :
    (source.read (Tree.paragraph text) .root).toList = text := by
  rcases Tree.wholeText_paragraph text with ⟨hWhole, hOwn⟩
  cases source with
  | text =>
      rw [TextSource.read, Tree.textOf, hWhole, normalizeSpaces,
        String.toList_ofList, String.toList_ofList, hText]
  | own =>
      rw [TextSource.read, Tree.ownText, hOwn, normalizeSpaces,
        String.toList_ofList, String.toList_ofList, hText]
  | whole => cases hNormal
  | wholeOwn => cases hNormal

------------------------------------------------------------
-- Occurrences
------------------------------------------------------------

namespace Selector

variable {source : TextSource} {text : String}

/- A text is found where its sigmas keep what they are. -/
theorem accepts_of_keepsSigmas
    (hNormal : source.isNormalized = true)
    {ctx : Context}
    {n : Node}
    (hElement : ctx.tree.isElement n = true)
    {before after : List Char}
    (hRead :
      (source.read ctx.tree n).toList =
        before ++ Text.normalizeBlanks text.toList ++ after)
    (hKeeps :
      Text.KeepsSigmas before (Text.normalizeBlanks text.toList) after) :
    (.containsText source (Scan.needle source text) : Selector E).accepts
      ctx n = true := by
  rw [accepts_containsText_iff hElement hNormal, Scan.toList_needle hNormal,
    hRead]
  exact Text.lowercase_infix_of_keepsSigmas hKeeps

/- Else a letter beside the text keeps it from being found. -/
theorem exists_not_accepts_of_not_areSigmasInner
    (hNormal : source.isNormalized = true)
    (hSome : Text.normalizeBlanks text.toList ≠ [])
    (h : Text.areSigmasInner [] (Text.normalizeBlanks text.toList) = false) :
    ∃ body,
      Text.normalizeBlanks text.toList <:+:
          (source.read (Tree.paragraph body) .root).toList ∧
        (.containsText source (Scan.needle source text) : Selector E).accepts
          ⟨Tree.paragraph body, .root, {}⟩ .root = false := by
  have hSpaced :
      Text.isSpaced false (Text.normalizeBlanks text.toList) = true :=
    (Text.normalizeBlanks_spaced text.toList).resolve_left hSome
  -- The text of the element has to be normalised to be read as it is.
  have hMissed :
      ∀ body, Text.isSpaced false body = true →
        Text.normalizeBlanks text.toList <:+: body →
          ¬ Text.lowercase (Text.normalizeBlanks text.toList) <:+:
              Text.lowercase body →
            Text.normalizeBlanks text.toList <:+:
                (source.read (Tree.paragraph body) .root).toList ∧
              (.containsText source
                (Scan.needle source text) : Selector E).accepts
                  ⟨Tree.paragraph body, .root, {}⟩ .root = false := by
    intro body hBody hInfix hNot
    have hRead := Tree.read_paragraph hNormal
      (Text.normalizeBlanks_of_isSpaced hBody)
    have hRejects :
        ¬ (.containsText source
            (Scan.needle source text) : Selector E).accepts
          ⟨Tree.paragraph body, .root, {}⟩ .root = true := by
      rw [accepts_containsText_iff (Tree.isElement_paragraph body) hNormal,
        Scan.toList_needle hNormal, hRead]
      exact hNot
    rw [hRead]
    exact ⟨hInfix, Bool.eq_false_iff.2 hRejects⟩
  rcases Text.exists_not_infix_of_not_areSigmasInner h with
    ⟨k, hJoins, hBefore | hAfter⟩
  · exact ⟨_, hMissed _ (Text.isSpaced_cons hJoins hSpaced)
      (List.suffix_cons k _).isInfix hBefore⟩
  · exact ⟨_, hMissed _ (Text.isSpaced_concat hJoins hSpaced)
      (List.prefix_append _ [k]).isInfix hAfter⟩

/-
  The query for a text, quoted and escaped, is read as the
  needle of the text.  An element that holds the text as it
  was written matches wherever its sigmas end words as they do
  in the text alone.  All elements that hold it match exactly
  if each of its sigmas is settled by the text itself; so do
  they for every text without a capital sigma.
-/
theorem occurrences_are_found_iff
    (E : Engine)
    (hNormal : source.isNormalized = true)
    (hSome : Text.normalizeBlanks text.toList ≠ []) :
    read E (":contains" ++ source.ending ++ "(" ++ Text.quoted text ++ ")") =
        .ok (.containsText source (Scan.needle source text)) ∧
      (∀ (ctx : Context) (n : Node) (before after : List Char),
        ctx.tree.isElement n = true →
          (source.read ctx.tree n).toList =
              before ++ Text.normalizeBlanks text.toList ++ after →
            Text.KeepsSigmas before (Text.normalizeBlanks text.toList)
                after →
              (.containsText source
                (Scan.needle source text) : Selector E).accepts ctx n =
                  true) ∧
        ((∀ (ctx : Context) (n : Node), ctx.tree.isElement n = true →
            Text.normalizeBlanks text.toList <:+:
                (source.read ctx.tree n).toList →
              (.containsText source
                (Scan.needle source text) : Selector E).accepts ctx n =
                  true) ↔
          Text.areSigmasInner [] (Text.normalizeBlanks text.toList) =
            true) := by
  have hText : text ≠ "" := by
    rintro rfl
    exact hSome rfl
  refine ⟨read_containsText_text hText source, ?_, ?_, ?_⟩
  · intro ctx n before after hElement hRead hKeeps
    exact accepts_of_keepsSigmas hNormal hElement hRead hKeeps
  · intro hAll
    by_contra hInner
    rw [Bool.not_eq_true] at hInner
    rcases exists_not_accepts_of_not_areSigmasInner hNormal hSome hInner with
      ⟨body, hInfix, hRejects⟩
    have hAccepts := hAll ⟨Tree.paragraph body, .root, {}⟩ .root
      (Tree.isElement_paragraph body) hInfix
    rw [hRejects] at hAccepts
    cases hAccepts
  · intro hInner ctx n hElement hInfix
    rcases hInfix with ⟨before, after, hSplit⟩
    exact accepts_of_keepsSigmas hNormal hElement hSplit.symm
      (Text.keepsSigmas_of_areSigmasInner hInner before after)

/-
  A sigma at the end of a word in the middle of the text is
  settled, whatever the text stands in.
-/
theorem occurrences_are_found_iff_inner_word :
    TextSource.own.isNormalized = true ∧
      Text.normalizeBlanks "ΑΣ  Α".toList ≠ [] ∧
        read .standard ":containsOwn(\"ΑΣ  Α\")" =
            .ok (.containsText .own (Scan.needle .own "ΑΣ  Α")) ∧
          ∀ (ctx : Context) (n : Node), ctx.tree.isElement n = true →
            "ΑΣ Α".toList <:+: (ctx.tree.ownText n).toList →
              (.containsText .own
                (Scan.needle .own "ΑΣ  Α") : Selector .standard).accepts
                  ctx n = true := by
  have hNormal : TextSource.own.isNormalized = true := rfl
  have hBlanks : Text.normalizeBlanks "ΑΣ  Α".toList = "ΑΣ Α".toList := by
    decide +kernel
  have hSome : Text.normalizeBlanks "ΑΣ  Α".toList ≠ [] := by
    rw [hBlanks]
    decide
  have hInner :
      Text.areSigmasInner [] (Text.normalizeBlanks "ΑΣ  Α".toList) =
        true := by
    decide +kernel
  rcases occurrences_are_found_iff .standard hNormal hSome with
    ⟨hRead, _, hFound⟩
  refine ⟨hNormal, hSome, hRead, ?_⟩
  rw [← hBlanks]
  exact hFound.2 hInner

/-
  A sigma that ends the text, but not the word that it stands
  in, keeps the text from being found.
-/
theorem occurrence_is_missed_of_final_sigma :
    read .standard ":contains(\"ΑΣ\")" = .ok (.containsText .text "ας") ∧
      (Tree.paragraph "ΑΣΑ".toList).isElement .root = true ∧
        "ΑΣ".toList <:+:
            ((Tree.paragraph "ΑΣΑ".toList).textOf .root).toList ∧
          (.containsText .text "ας" : Selector .standard).accepts
              ⟨Tree.paragraph "ΑΣΑ".toList, .root, {}⟩ .root = false := by
  have hRead :
      (TextSource.text.read (Tree.paragraph "ΑΣΑ".toList) .root).toList =
        "ΑΣΑ".toList :=
    Tree.read_paragraph rfl (by decide +kernel)
  have hMissed :
      ¬ "ας".toList <:+: Text.lowercase "ΑΣΑ".toList := by
    rw [← Text.occursIn_iff_infix]
    decide +kernel
  refine ⟨by with_unfolding_all rfl, rfl, ?_, ?_⟩
  · change "ΑΣ".toList <:+:
      (TextSource.text.read (Tree.paragraph "ΑΣΑ".toList) .root).toList
    rw [hRead]
    exact ⟨[], ['Α'], rfl⟩
  · rw [Bool.eq_false_iff, ne_eq,
      accepts_containsText_iff (Tree.isElement_paragraph _) rfl, hRead]
    exact hMissed

end Selector

end TreeQuery
