import TreeQuery.Proofs.Reading.Shape
import TreeQuery.Proofs.Reading.Token
import TreeQuery.Proofs.Selector.Formula
import TreeQuery.Proofs.Selector.Parts
import TreeQuery.Proofs.Text.Blank

/-
  Selectors with a legible text.

  Names and patterns are written as they are, without escapes.
  A selector is legible if each of them still ends where it
  ended: names hold only what names may hold, patterns close
  their brackets and have no outer blanks or quotes.  Plain
  selectors, which have simple names and no patterns, are.

  Key definitions include:
    * `Selector.isLegible`
    * `Selector.isPlain`
    * `Selector.isFilled`
    * `IsNeat`

  Main statement:
    * `Selector.IsWritten.legible_of_isPlain`
-/

namespace TreeQuery

variable {E : Engine}

------------------------------------------------------------
-- Legible Texts
------------------------------------------------------------

/- The text does not begin with a blank. -/
def startsUnblank (text : List Char) : Bool :=
  !text.head?.any Text.isBlank

/- Names with a colon between any two of them. -/
def isAttributeName (text : List Char) : Bool :=
  startsUnblank text && (text.splitOn ':').all isName

/- The text of an argument, which has no outer blanks. -/
def isArgument (text : List Char) : Bool :=
  isBalanced '(' ')' text && Text.trim text == text

/- The text of a pattern is not taken for a quoted one. -/
def isPatternText (opening closing : Char) (text : List Char) : Bool :=
  isBalanced opening closing text
    && Text.trim text == text
    && !text.head?.any isQuote

/- The names of a name test are names, and it begins with one. -/
def TagSelector.isLegible : TagSelector → Bool
| .name s => isName s.toList && startsUnblank s.toList
| .anyNamespace l => isName l.toList
| .namespaceOnly q => isName q.toList && startsUnblank q.toList
| .qualified q l =>
    isName q.toList && startsUnblank q.toList && isName l.toList

/- The pattern of an attribute test is the text of one. -/
def AttributeTest.isLegible : AttributeTest E → Bool
| .matchesPattern p => isPatternText '[' ']' p.source.toList
| _ => true

------------------------------------------------------------
-- Plain Texts
------------------------------------------------------------

/- A name without blanks. -/
def isPlainName (text : List Char) : Bool :=
  isName text && text.all fun c => !Text.isBlank c

/- The names of a name test are plain names. -/
def TagSelector.isPlain : TagSelector → Bool
| .name s => isPlainName s.toList
| .anyNamespace l => isPlainName l.toList
| .namespaceOnly q => isPlainName q.toList
| .qualified q l => isPlainName q.toList && isPlainName l.toList

/- An attribute test asks for no pattern. -/
def AttributeTest.isPlain : AttributeTest E → Bool
| .matchesPattern _ => false
| _ => true

------------------------------------------------------------
-- Legible and Plain Selectors
------------------------------------------------------------

namespace Selector

/- A part, apart from its own parts, can be read where it stands. -/
def isLegiblePart : Selector E → Bool
| .tag test => test.isLegible
| .id value => isName value.toList
| .className name => isName name.toList
| .attr name test => isAttributeName name.toList && test.isLegible
| .attrStarting start => isName start.toList
| .matchesText _ p => isPatternText '(' ')' p.source.toList
| .not inner | .is inner | .has inner => isArgument inner.text.toList
| _ => true

/- All parts of the selector can be read where they stand. -/
def isLegible (s : Selector E) : Bool :=
  s.everyPart isLegiblePart

/-
  A part has plain names and no pattern.  A needle for a
  normalised text is not empty.
-/
def isPlainPart : Selector E → Bool
| .tag test => test.isPlain
| .id value => isPlainName value.toList
| .className name => isPlainName name.toList
| .attr name test =>
    (name.toList.splitOn ':').all isPlainName && test.isPlain
| .attrStarting start => isPlainName start.toList
| .containsText source needle => !source.isNormalized || !needle.isEmpty
| .matchesText _ _ => false
| _ => true

/- All parts of the selector are plain. -/
def isPlain (s : Selector E) : Bool :=
  s.everyPart isPlainPart

/- A part that looks for a text looks for one that is not empty. -/
def isFilledPart : Selector E → Bool
| .containsText _ needle => !needle.isEmpty
| _ => true

/- No needle of the selector is empty. -/
def isFilled (s : Selector E) : Bool :=
  s.everyPart isFilledPart

end Selector

------------------------------------------------------------
-- Neat Texts
------------------------------------------------------------

/-
  A text that may stand between parentheses: it is passed over
  there and has no outer blanks.
-/
structure IsNeat (text : List Char) : Prop where
  spans : Spans '(' ')' text
  starts : ∃ x xs, text = x :: xs ∧ Text.isBlank x = false
  ends : ∃ xs x, text = xs ++ [x] ∧ Text.isBlank x = false

/- A character that is no blank, quote, backslash or parenthesis. -/
def IsQuiet (c : Char) : Prop :=
  Text.isBlank c = false ∧ c ∉ ['\\', '"', '\'', '(', ')']

instance (c : Char) : Decidable (IsQuiet c) :=
  inferInstanceAs (Decidable (_ ∧ _))

/- A neat text has nothing to trim. -/
theorem IsNeat.trim_eq
    {text : List Char}
    (h : IsNeat text) :
    Text.trim text = text := by
  rcases h.starts with ⟨x, xs, hStart, hFirst⟩
  rcases h.ends with ⟨ys, y, hEnd, hLast⟩
  rw [Text.trim]
  conv => lhs; rw [hStart, Text.trimStart_of_unblank hFirst, ← hStart, hEnd]
  rw [Text.trimEnd_of_unblank hLast, hEnd]

/- A neat text can be an argument. -/
theorem IsNeat.isArgument
    {text : List Char}
    (h : IsNeat text) :
    isArgument text = true := by
  have hBalanced := h.spans.isBalanced (by decide)
  simp [TreeQuery.isArgument, hBalanced, h.trim_eq]

/- An argument is neat unless it is empty. -/
theorem isNeat_of_isArgument
    {text : List Char}
    (h : TreeQuery.isArgument text = true)
    (hSome : text ≠ []) :
    IsNeat text := by
  simp only [TreeQuery.isArgument, Bool.and_eq_true, beq_iff_eq] at h
  rcases Text.trimEnd_of_trim h.2 hSome with ⟨hEnd, hStarts⟩
  refine ⟨spans_of_isBalanced h.1, hStarts, ?_⟩
  have hSplit := List.dropLast_concat_getLast hSome
  have hLast := Text.trimEnd_eq_self_iff.1 hEnd
  exact ⟨_, _, hSplit.symm, hLast _ (List.getLast?_eq_some_getLast hSome)⟩

theorem spans_of_quiet
    {text : List Char}
    (h : ∀ c ∈ text, IsQuiet c) :
    Spans '(' ')' text :=
  spans_of_forall fun c hMem => (h c hMem).2

/- A text between neat ones is neat if it is passed over. -/
theorem IsNeat.join
    {xs text ys : List Char}
    (hLeft : IsNeat xs)
    (hText : Spans '(' ')' text)
    (hRight : IsNeat ys) :
    IsNeat (xs ++ text ++ ys) := by
  rcases hLeft.starts with ⟨x, tail, hStart, hFirst⟩
  rcases hRight.ends with ⟨front, y, hEnd, hLast⟩
  refine ⟨(hLeft.spans.append hText).append hRight.spans, ?_, ?_⟩
  · exact ⟨x, tail ++ text ++ ys, by simp [hStart], hFirst⟩
  · exact ⟨xs ++ text ++ front, y, by simp [hEnd], hLast⟩

theorem IsNeat.append
    {xs ys : List Char}
    (hLeft : IsNeat xs)
    (hRight : IsNeat ys) :
    IsNeat (xs ++ ys) := by
  have hJoined := hLeft.join spans_nil hRight
  rwa [List.append_nil] at hJoined

theorem isNeat_of_quiet
    {text : List Char}
    (hSome : text ≠ [])
    (hQuiet : ∀ c ∈ text, IsQuiet c) :
    IsNeat text := by
  refine ⟨spans_of_quiet hQuiet, ?_, ?_⟩
  · rcases List.exists_cons_of_ne_nil hSome with ⟨x, xs, rfl⟩
    exact ⟨x, xs, rfl, (hQuiet x (by simp)).1⟩
  · have hSplit := List.dropLast_concat_getLast hSome
    refine ⟨_, _, hSplit.symm, ?_⟩
    exact (hQuiet _ (List.getLast_mem hSome)).1

theorem isNeat_of_all
    {text : List Char}
    (hSome : text ≠ [])
    (hQuiet : (text.all fun c => IsQuiet c) = true) :
    IsNeat text :=
  isNeat_of_quiet hSome (List.all_iff_forall_prop.1 hQuiet)

/- The tests that are written as they are have neat texts. -/
theorem isNeat_sign
    (sign : String)
    (h :
      sign ∈ ["*", ":root", ":scope", ":empty", ":only-child",
        ":only-of-type"]) :
    IsNeat sign.toList := by
  simp only [List.mem_cons, List.not_mem_nil, or_false] at h
  rcases h with rfl | rfl | rfl | rfl | rfl | rfl <;>
    exact isNeat_of_all (by decide) (by decide)

/- A sign and a text between parentheses are neat. -/
theorem isNeat_call
    {name argument : List Char}
    (hSome : name ≠ [])
    (hName : ∀ c ∈ name, IsQuiet c)
    (hArgument : Spans '(' ')' argument) :
    IsNeat (name ++ ('(' :: argument ++ [')'])) := by
  have hNeat := isNeat_of_quiet hSome hName
  have hCall := hArgument.enclose (by decide) (by decide)
  rcases hNeat.starts with ⟨x, xs, hStart, hFirst⟩
  refine ⟨hNeat.spans.append hCall, ?_, ?_⟩
  · exact ⟨x, xs ++ ('(' :: argument ++ [')']), by simp [hStart], hFirst⟩
  · exact ⟨name ++ '(' :: argument, ')', by simp, by decide⟩

------------------------------------------------------------
-- Plain Names
------------------------------------------------------------

theorem isQuiet_of_name
    {c : Char}
    (hName : isIdentifierChar c = true)
    (hUnblank : Text.isBlank c = false) :
    IsQuiet c := by
  have hPlain := not_special_of_isIdentifierChar hName
  simp only [List.mem_cons, List.not_mem_nil, or_false, not_or] at hPlain
  refine ⟨hUnblank, ?_⟩
  simp [hPlain]

theorem quiet_of_isPlainName
    {text : List Char}
    (h : isPlainName text = true) :
    isName text = true ∧ text ≠ [] ∧ ∀ c ∈ text, IsQuiet c := by
  simp only [isPlainName, Bool.and_eq_true, List.all_eq_true,
    Bool.not_eq_true'] at h
  rcases h with ⟨hName, hUnblank⟩
  have hParts := hName
  simp only [isName, Bool.and_eq_true, Bool.not_eq_true',
    List.isEmpty_eq_false_iff, List.all_eq_true] at hParts
  refine ⟨hName, hParts.1, ?_⟩
  intro c hMem
  exact isQuiet_of_name (hParts.2 c hMem) (hUnblank c hMem)

theorem startsUnblank_of_quiet
    {text : List Char}
    (h : ∀ c ∈ text, IsQuiet c) :
    startsUnblank text = true := by
  cases text with
  | nil => rfl
  | cons c text => simp [startsUnblank, (h c (by simp)).1]

/- The characters between separators are those of the segments. -/
theorem mem_of_splitOn
    {text : List Char}
    {c : Char}
    (separator : Char)
    (h : c ∈ text) :
    c = separator ∨ ∃ segment ∈ text.splitOn separator, c ∈ segment := by
  have hText :
      [separator].intercalate (text.splitOn separator) = text :=
    List.intercalate_splitOn separator
  rw [← hText] at h
  generalize text.splitOn separator = segments at h
  induction segments with
  | nil => simp at h
  | cons segment segments ih =>
      by_cases hLast : segments = []
      · subst hLast
        rw [List.intercalate_singleton] at h
        exact .inr ⟨segment, by simp, h⟩
      · rw [List.intercalate_cons_of_ne_nil hLast, List.mem_append,
          List.mem_append, List.mem_singleton] at h
        rcases h with (hHere | hSeparator) | hLater
        · exact .inr ⟨segment, by simp, hHere⟩
        · exact .inl hSeparator
        · rcases ih hLater with hSeparator | ⟨other, hMem, hIn⟩
          · exact .inl hSeparator
          · exact .inr ⟨other, by simp [hMem], hIn⟩

theorem quiet_of_plain_segments
    {text : List Char}
    (h : (text.splitOn ':').all isPlainName = true) :
    isAttributeName text = true ∧ ∀ c ∈ text, IsQuiet c := by
  have hPlain := List.all_eq_true.1 h
  have hQuiet : ∀ c ∈ text, IsQuiet c := by
    intro c hMem
    rcases mem_of_splitOn ':' hMem with hColon | ⟨segment, hSegment, hIn⟩
    · rw [hColon]
      decide
    · exact (quiet_of_isPlainName (hPlain segment hSegment)).2.2 c hIn
  refine ⟨?_, hQuiet⟩
  rw [isAttributeName, startsUnblank_of_quiet hQuiet, Bool.true_and,
    List.all_eq_true]
  intro segment hMem
  exact (quiet_of_isPlainName (hPlain segment hMem)).1

------------------------------------------------------------
-- Plain Parts
------------------------------------------------------------

/- A plain name test is legible, and its text is neat. -/
theorem TagSelector.legible_of_isPlain
    {test : TagSelector}
    (h : test.isPlain = true) :
    test.isLegible = true ∧ IsNeat test.text.toList := by
  have hNeat :
      ∀ {text : List Char}, isPlainName text = true → IsNeat text :=
    fun hPlain =>
      isNeat_of_quiet (quiet_of_isPlainName hPlain).2.1
        (quiet_of_isPlainName hPlain).2.2
  have hName :
      ∀ {text : List Char}, isPlainName text = true →
        isName text = true ∧ startsUnblank text = true :=
    fun hPlain =>
      ⟨(quiet_of_isPlainName hPlain).1,
        startsUnblank_of_quiet (quiet_of_isPlainName hPlain).2.2⟩
  have hBar : Spans '(' ')' ['|'] := spans_singleton (by decide)
  have hStar : IsNeat ['*'] := isNeat_of_all (by decide) (by decide)
  cases test with
  | name s =>
      refine ⟨?_, hNeat h⟩
      simp [isLegible, hName h]
  | anyNamespace l =>
      refine ⟨(hName h).1, ?_⟩
      simpa [TagSelector.text] using hStar.join hBar (hNeat h)
  | namespaceOnly q =>
      refine ⟨?_, ?_⟩
      · simp [isLegible, hName h]
      · simpa [TagSelector.text] using (hNeat h).join hBar hStar
  | qualified q l =>
      simp only [isPlain, Bool.and_eq_true] at h
      refine ⟨?_, ?_⟩
      · simp [isLegible, hName h.1, hName h.2]
      · simpa [TagSelector.text] using (hNeat h.1).join hBar (hNeat h.2)

theorem AttributeTest.legible_of_isPlain
    {test : AttributeTest E}
    (h : test.isPlain = true) :
    test.isLegible = true ∧ Spans '(' ')' test.text.toList := by
  cases test with
  | present => exact ⟨rfl, spans_nil⟩
  | compare comparison value =>
      refine ⟨rfl, ?_⟩
      have hSign : Spans '(' ')' comparison.sign.toList := by
        apply spans_of_quiet
        cases comparison <;> exact List.all_iff_forall_prop.1 (by decide)
      rw [text, String.toList_append]
      exact hSign.append (spans_quoted value)
  | matchesPattern p => simp [isPlain] at h

/- The text of a formula is quiet. -/
theorem isQuiet_of_isFormulaChar
    {c : Char}
    (h : Formula.isFormulaChar c = true) :
    IsQuiet c := by
  refine ⟨(Formula.compact_of_isFormulaChar h).1, ?_⟩
  intro hMem
  simp only [List.mem_cons, List.not_mem_nil, or_false] at hMem
  rcases hMem with rfl | rfl | rfl | rfl | rfl
  all_goals
    revert h
    decide

theorem Position.isNeat_text (kind : Position) (formula : Formula) :
    IsNeat (kind.text formula).toList := by
  rw [text]
  by_cases hFirst : formula = .first
  · rw [if_pos hFirst]
    apply isNeat_of_all
    · simp
    · cases kind <;> decide
  · have hFormula : Spans '(' ')' formula.text.toList :=
      spans_of_quiet fun c hMem =>
        isQuiet_of_isFormulaChar (Formula.isFormulaChar_of_mem_text hMem)
    have hName : ∀ c ∈ (":nth-" ++ kind.name).toList, IsQuiet c := by
      cases kind <;> exact List.all_iff_forall_prop.1 (by decide)
    have hCall := isNeat_call (by simp) hName hFormula
    rw [if_neg hFirst]
    simpa using hCall

namespace Selector

variable {P : Selector E → Prop}

/-
  A plain part is legible and has a neat text if the selectors
  within it are and have.
-/
theorem IsPart.legible_of_isPlain
    {before : List (Selector E)}
    {part : Selector E}
    (hPart : IsPart P before part)
    (hInner :
      ∀ inner, P inner → inner.isPlain = true →
        inner.isLegible = true ∧ IsNeat inner.text.toList)
    (hPlain : part.isPlain = true) :
    part.isLegible = true ∧ IsNeat part.text.toList := by
  cases hPart with
  | universal => exact ⟨rfl, isNeat_sign "*" (by simp)⟩
  | tag hTest =>
      exact TagSelector.legible_of_isPlain hPlain
  | id hValue =>
      rcases quiet_of_isPlainName hPlain with ⟨hName, _, hQuiet⟩
      refine ⟨hName, isNeat_of_quiet (by simp [text]) ?_⟩
      have hHash : IsQuiet '#' := by decide
      simpa [text, hHash] using hQuiet
  | className hClass =>
      rcases quiet_of_isPlainName hPlain with ⟨hName, _, hQuiet⟩
      refine ⟨hName, isNeat_of_quiet (by simp [text]) ?_⟩
      have hDot : IsQuiet '.' := by decide
      simpa [text, hDot] using hQuiet
  | attr hName hTest =>
      simp only [isPlain, everyPart, isPlainPart, Bool.and_eq_true]
        at hPlain
      rcases hPlain with ⟨hSegments, hPlainTest⟩
      rcases quiet_of_plain_segments hSegments with ⟨hLegible, hQuiet⟩
      rcases AttributeTest.legible_of_isPlain hPlainTest with
        ⟨hLegibleTest, hSpans⟩
      refine ⟨?_, ?_⟩
      · simp [isLegible, everyPart, isLegiblePart, hLegible, hLegibleTest]
      · have hOpening : IsNeat ['['] :=
          isNeat_of_all (by decide) (by decide)
        have hClosing : IsNeat [']'] :=
          isNeat_of_all (by decide) (by decide)
        have hText :=
          hOpening.join ((spans_of_quiet hQuiet).append hSpans) hClosing
        simpa [text] using hText
  | attrStarting hStart =>
      rcases quiet_of_isPlainName hPlain with ⟨hName, _, hQuiet⟩
      refine ⟨hName, ?_⟩
      have hOpening : IsNeat ['[', '^'] :=
        isNeat_of_all (by decide) (by decide)
      have hClosing : IsNeat [']'] :=
        isNeat_of_all (by decide) (by decide)
      have hText := hOpening.join (spans_of_quiet hQuiet) hClosing
      simpa [text] using hText
  | root => exact ⟨rfl, isNeat_sign ":root" (by simp)⟩
  | scope => exact ⟨rfl, isNeat_sign ":scope" (by simp)⟩
  | empty => exact ⟨rfl, isNeat_sign ":empty" (by simp)⟩
  | onlyChild => exact ⟨rfl, isNeat_sign ":only-child" (by simp)⟩
  | onlyOfType => exact ⟨rfl, isNeat_sign ":only-of-type" (by simp)⟩
  | @index _ test n hFits =>
      refine ⟨by simp [isLegible, everyPart], ?_⟩
      have hName : ∀ c ∈ (":" ++ test.name).toList, IsQuiet c := by
        cases test <;> exact List.all_iff_forall_prop.1 (by decide)
      have hDigits : Spans '(' ')' (toString n).toList := by
        apply spans_of_quiet
        intro c hMem
        apply isQuiet_of_isFormulaChar
        simp [Formula.isFormulaChar, Text.isDigit_of_mem_toString hMem]
      have hCall := isNeat_call (by simp) hName hDigits
      simpa [text] using hCall
  | @position _ kind formula =>
      exact ⟨rfl, kind.isNeat_text formula⟩
  | @nested _ nesting inner hWithin =>
      rw [isPlain, everyPart_wrap, Bool.and_eq_true] at hPlain
      rcases hInner inner hWithin hPlain.2 with ⟨hLegible, hNeat⟩
      refine ⟨?_, ?_⟩
      · rw [isLegible, everyPart_wrap, ← isLegible, hLegible]
        cases nesting <;> simp [Nesting.wrap, isLegiblePart, hNeat.isArgument]
      · have hCall :
            ∀ name : String, name.toList ≠ [] →
              (name.toList.all fun c => IsQuiet c) = true →
                IsNeat (name ++ "(" ++ inner.text ++ ")").toList := by
          intro name hSome hName
          have hNeatCall :=
            isNeat_call hSome (List.all_iff_forall_prop.1 hName) hNeat.spans
          simpa using hNeatCall
        cases nesting with
        | has => exact hCall ":has" (by decide) (by decide)
        | not => exact hCall ":not" (by decide) (by decide)
        | is => exact hCall ":is" (by decide) (by decide)
  | @containsText _ source needle =>
      refine ⟨rfl, ?_⟩
      have hName : ∀ c ∈ (":contains" ++ source.ending).toList, IsQuiet c := by
        cases source <;> exact List.all_iff_forall_prop.1 (by decide)
      have hCall := isNeat_call (by simp) hName
        (spans_quoted (Scan.needle source needle))
      simpa [text] using hCall
  | matchesText hSource hCase =>
      simp [isPlain, everyPart, isPlainPart] at hPlain

------------------------------------------------------------
-- Plain Selectors
------------------------------------------------------------

section Plain

variable
  (hInner :
    ∀ inner, P inner → inner.isPlain = true →
      inner.isLegible = true ∧ IsNeat inner.text.toList)

include hInner

theorem ArePartsAfter.legible_of_isPlain
    {before parts : List (Selector E)}
    (hParts : ArePartsAfter P before parts)
    (hPlain : parts.all isPlain = true) :
    parts.all isLegible = true ∧
      (parts ≠ [] → IsNeat (partsText parts).toList) := by
  induction hParts with
  | nil => exact ⟨rfl, fun hSome => absurd rfl hSome⟩
  | @cons before parts part hPart hRest ih =>
      rw [List.all_cons, Bool.and_eq_true] at hPlain
      rcases hPart.legible_of_isPlain hInner hPlain.1 with
        ⟨hLegible, hNeat⟩
      rcases ih hPlain.2 with ⟨hLegibleRest, hNeatRest⟩
      refine ⟨by simp [hLegible, hLegibleRest], ?_⟩
      intro _
      rw [partsText, String.toList_append]
      by_cases hLast : parts = []
      · subst hLast
        simpa [partsText] using hNeat
      · exact hNeat.append (hNeatRest hLast)

theorem IsCompound.legible_of_isPlain
    {s : Selector E}
    (hCompound : IsCompound P s)
    (hPlain : s.isPlain = true) :
    s.isLegible = true ∧ IsNeat s.text.toList := by
  rcases hCompound with ⟨parts, hSome, hParts, rfl⟩
  rw [isPlain, everyPart_ofParts] at hPlain
  rcases hParts.legible_of_isPlain hInner hPlain with ⟨hLegible, hNeat⟩
  rw [isLegible, everyPart_ofParts, text_ofParts]
  exact ⟨hLegible, hNeat hSome⟩

theorem IsChain.legible_of_isPlain
    {s : Selector E}
    (hChain : IsChain P s)
    (hPlain : s.isPlain = true) :
    s.isLegible = true ∧ IsNeat s.text.toList := by
  induction hChain with
  | compound hCompound =>
      exact hCompound.legible_of_isPlain hInner hPlain
  | @related left right c hLeft hRight ih =>
      rw [isPlain, everyPart_relate, Bool.and_eq_true] at hPlain
      rcases ih hPlain.1 with ⟨hLegible, hNeat⟩
      rcases hRight.legible_of_isPlain hInner hPlain.2 with
        ⟨hLegibleRight, hNeatRight⟩
      refine ⟨?_, ?_⟩
      · rw [isLegible, everyPart_relate, Bool.and_eq_true]
        exact ⟨hLegible, hLegibleRight⟩
      · rw [text_relate, String.toList_append]
        rcases operandText_cases left c left.text with
          hText | ⟨_, x, hSign, hText⟩
        · have hSpans : Spans '(' ')' c.sign.toList := by
            apply spans_of_forall
            cases c <;> exact List.all_iff_forall_prop.1 (by decide)
          rw [hText, String.toList_append]
          exact hNeat.join hSpans hNeatRight
        · have hSigns : ∀ y ∈ ['>', '+', '~'], IsQuiet y :=
            List.all_iff_forall_prop.1 (by decide)
          have hFirst : IsNeat [x] :=
            isNeat_of_quiet (by simp)
              (by simpa using hSigns x (mem_of_combinator? hSign))
          have hSpace : Spans '(' ')' [' '] := spans_singleton (by decide)
          rw [hText]
          exact hFirst.join hSpace hNeatRight

theorem IsGroup.legible_of_isPlain
    {s : Selector E}
    (hGroup : IsGroup P s)
    (hPlain : s.isPlain = true) :
    s.isLegible = true ∧ IsNeat s.text.toList := by
  rcases hGroup with ⟨branches, hSome, hChains, rfl⟩
  rw [isPlain, everyPart_ofBranches] at hPlain
  rw [isLegible, everyPart_ofBranches, text_ofBranches]
  induction branches with
  | nil => exact absurd rfl hSome
  | cons branch branches ih =>
      rw [List.all_cons, Bool.and_eq_true] at hPlain
      rcases (hChains branch (by simp)).legible_of_isPlain hInner hPlain.1
        with ⟨hLegible, hNeat⟩
      rw [isLegible] at hLegible
      cases branches with
      | nil =>
          refine ⟨by simp [hLegible], ?_⟩
          rw [branchesText]
          exact hNeat
      | cons next branches =>
          rcases ih (by simp)
            (fun b hMem => hChains b (List.mem_cons_of_mem _ hMem))
            hPlain.2 with ⟨hLegibleRest, hNeatRest⟩
          have hComma : Spans '(' ')' ", ".toList :=
            spans_of_forall (List.all_iff_forall_prop.1 (by decide))
          refine ⟨?_, ?_⟩
          · rw [List.all_cons, hLegible, hLegibleRest]
            rfl
          · rw [branchesText, String.toList_append, String.toList_append]
            · exact hNeat.join hComma hNeatRest
            · simp

end Plain

/- Plain selectors that are written are legible, and neat. -/
theorem IsWritten.legible_of_isPlain
    {s : Selector E}
    (hWritten : IsWritten s)
    (hPlain : s.isPlain = true) :
    s.isLegible = true ∧ IsNeat s.text.toList := by
  refine hWritten.induction (P := fun t =>
    t.isPlain = true → t.isLegible = true ∧ IsNeat t.text.toList) ?_ hPlain
  intro t hGroup hPlain
  exact hGroup.legible_of_isPlain
    (fun inner hInner => hInner.2) hPlain

end Selector

end TreeQuery
