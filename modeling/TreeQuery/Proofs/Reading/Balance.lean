import TreeQuery.Proofs.Reading.Closing

/-
  Parentheses in the texts of selectors.

  Names and signs have no parentheses, arguments stand between
  two of them, and in quoted texts they do not count.  So only
  an attribute value that is not quoted can leave a parenthesis
  open, or close one that it did not open.

  Key definitions include:
    * `Selector.isParenFree`

  Main statements:
    * `Scan.passes_attributeTest`
    * `Scan.passes_partsFrom`
    * `Scan.spans_of_readPart`
-/

namespace TreeQuery

variable {E : Engine}

------------------------------------------------------------
-- Attribute Values without Parentheses
------------------------------------------------------------

/- No parenthesis stands in the text. -/
def Text.isParenFree (text : List Char) : Bool :=
  text.all fun x => x != '(' && x != ')'

/- The attribute is not compared with a text that has parentheses. -/
def AttributeTest.isParenFree : AttributeTest E → Bool
| .present => true
| .compare _ value => Text.isParenFree value.toList
| .matchesPattern p => Text.isParenFree p.source.toList

namespace Selector

/- A part, if it tests an attribute, has no parenthesis in the value. -/
def isParenFreePart : Selector E → Bool
| .attr _ test => test.isParenFree
| _ => true

/- No attribute value of the selector has a parenthesis. -/
def isParenFree (s : Selector E) : Bool :=
  s.everyPart isParenFreePart

end Selector

namespace Text

/- Only backslashes are dropped, no parentheses. -/
theorem isParenFree_of_dropBackslashes
    {text : List Char}
    (h : isParenFree (dropBackslashes text) = true) :
    isParenFree text = true := by
  fun_induction dropBackslashes text with
  | case1 => rfl
  | case2 c rest ih =>
      simp only [isParenFree, List.all_cons, Bool.and_eq_true] at h ih ⊢
      exact ⟨by decide, h.1, ih h.2⟩
  | case3 => decide
  | case4 c rest _ _ ih =>
      simp only [isParenFree, List.all_cons, Bool.and_eq_true] at h ih ⊢
      exact ⟨h.1, ih h.2⟩

/- Blanks are no parentheses. -/
theorem isParenFree_of_trimEnd
    {text : List Char}
    (h : isParenFree (trimEnd text) = true) :
    isParenFree text = true := by
  have hBlanks : isParenFree (endBlanks text) = true := by
    refine List.all_eq_true.2 fun x hMem => ?_
    have hBlank := areBlanks_endBlanks text x hMem
    have hPlain : ∀ y ∈ ['(', ')'], isBlank y = false :=
      List.all_iff_forall_prop.1 (by decide)
    rw [Bool.and_eq_true, bne_iff_ne, bne_iff_ne]
    refine ⟨?_, ?_⟩
    · rintro rfl
      simp [hPlain] at hBlank
    · rintro rfl
      simp [hPlain] at hBlank
  rw [← trimEnd_append_endBlanks text, isParenFree, List.all_append,
    Bool.and_eq_true]
  exact ⟨h, hBlanks⟩

end Text

namespace Scan

variable {c d : Cursor}

------------------------------------------------------------
-- Attribute Tests
------------------------------------------------------------

/-
  What stands between square brackets is passed over between
  parentheses too, if what is left of it behind a reader is,
  and the reader passes over what it reads.
-/
theorem spans_of_behind
    {α : Type}
    {act : Scan α}
    {a : α}
    (hAct : ∀ {brackets}, Strides brackets act)
    (h : value? act c = some (a, d))
    (hSpans : Spans '[' ']' c.rest)
    (hRest : Spans '[' ']' d.rest → Spans '(' ')' d.rest) :
    Spans '(' ')' c.rest := by
  have hRead := value?_eq_some_iff.1 h
  have hSquare : areBrackets '[' ']' = true := rfl
  have hRound : areBrackets '(' ')' = true := rfl
  have hBehind := (hAct.passes hSquare c d a hRead).spans hSpans
  exact (hAct.passes hRound c d a hRead).spans_of_rest (hRest hBehind)

/- What ends a test leaves nothing behind. -/
theorem spans_of_expectEnd
    {place : EndOf}
    (h : value? (expectEnd place) c = some ((), d)) :
    Spans '(' ')' c.rest := by
  rw [value?_expectEnd] at h
  split at h
  · next hNil =>
      rw [List.isEmpty_iff.1 hNil]
      exact spans_nil
  · simp at h

/- A value in quotes is passed over to the end of the test. -/
theorem spans_quotedValue
    {resolve : Bool}
    {value : String}
    {q : Char}
    {cs : List Char}
    (hQuote : isQuote q = true)
    (hCons : c.rest = q :: cs)
    (h : value? (quotedValue resolve) c = some (value, d)) :
    Spans '(' ')' c.rest := by
  rcases value?_bind_eq_some_iff.1 h with ⟨text, e, hText, hRest⟩
  rcases value?_bind_eq_some_iff.1 hRest with ⟨_, f, hBlanks, hRest⟩
  rcases value?_bind_eq_some_iff.1 hRest with ⟨_, g, hEnd, _⟩
  have hValue : c.Passes '(' ')' e :=
    passes_quoted hQuote hCons (value?_eq_some_iff.1 hText)
  have hSkip : Passes '(' ')' skipBlanks := strides_skipBlanks.passes rfl
  have hBehind := hSkip e f _ (value?_eq_some_iff.1 hBlanks)
  exact (hValue.trans hBehind).spans_of_rest (spans_of_expectEnd hEnd)

/-
  A bare value is what is left of the test.  Between the square
  brackets it is passed over, so it is between parentheses if
  it has none.
-/
theorem spans_bareValue
    {resolve : Bool}
    {value : String}
    (h : value? (bareValue resolve) c = some (value, d))
    (hSpans : Spans '[' ']' c.rest)
    (hFree : Text.isParenFree value.toList = true) :
    Spans '(' ')' c.rest := by
  have hRaw : Text.isParenFree (Text.trimEnd c.rest) = true := by
    simp only [bareValue, value?_bind, value?_remainder, Option.bind_some,
      value?_pure, Option.some.injEq, Prod.mk.injEq] at h
    rw [← h.1, String.toList_ofList] at hFree
    cases resolve with
    | false => exact hFree
    | true => exact Text.isParenFree_of_dropBackslashes hFree
  refine hSpans.exchange (by decide) fun x hMem => ?_
  have hPlain :=
    List.all_eq_true.1 (Text.isParenFree_of_trimEnd hRaw) x hMem
  simpa using hPlain

theorem spans_attributeValue
    {op : AttributeOperator}
    {value : String}
    (h : value? (attributeValue op) c = some (value, d))
    (hSpans : Spans '[' ']' c.rest)
    (hFree : Text.isParenFree value.toList = true) :
    Spans '(' ')' c.rest := by
  rcases value?_bind_eq_some_iff.1 h with ⟨next, e, hPeek, hRead⟩
  cases hPeek
  split at hRead
  · next hAny =>
      rcases exists_of_peek? hAny with ⟨q, cs, hCons, hQuote⟩
      exact spans_quotedValue hQuote hCons hRead
  · exact spans_bareValue hRead hSpans hFree

/- The text of a value is kept in the test that it makes up. -/
theorem isParenFree_valueTest
    {op : AttributeOperator}
    {o : Nat}
    {value : String}
    {test : AttributeTest E}
    (h : value? (valueTest E op o value) c = some (test, d)) :
    test.isParenFree = Text.isParenFree value.toList := by
  cases op with
  | compare comparison =>
      cases h
      rfl
  | matchesPattern =>
      simp only [valueTest, value?_map, Option.map_eq_some_iff, Prod.exists,
        Prod.mk.injEq] at h
      rcases h with ⟨p, e, hPattern, rfl, _⟩
      rw [AttributeTest.isParenFree, (shape_pattern hPattern).1]

theorem spans_operatorAndValue
    {name : String}
    {test : AttributeTest E}
    (h : value? (operatorAndValue E name) c = some (test, d))
    (hSpans : Spans '[' ']' c.rest)
    (hFree : test.isParenFree = true) :
    Spans '(' ')' c.rest := by
  rcases value?_bind_eq_some_iff.1 h with ⟨op?, e, hFound, hRest⟩
  refine spans_of_behind strides_operator? hFound hSpans fun hSpans => ?_
  cases op? with
  | none => simp at hRest
  | some op =>
      rcases value?_bind_eq_some_iff.1 hRest with ⟨_, f, hBlanks, hRest⟩
      refine spans_of_behind strides_skipBlanks hBlanks hSpans
        fun hSpans => ?_
      rcases value?_bind_eq_some_iff.1 hRest with ⟨o, g, hOffset, hRest⟩
      cases hOffset
      rcases value?_bind_eq_some_iff.1 hRest with ⟨value, k, hValue, hRest⟩
      split at hRest
      · simp at hRest
      · rw [isParenFree_valueTest hRest] at hFree
        exact spans_attributeValue hValue hSpans hFree

theorem spans_namedTest
    {s : Selector E}
    (h : value? (namedTest E) c = some (s, d))
    (hSpans : Spans '[' ']' c.rest)
    (hFree : s.isParenFree = true) :
    Spans '(' ')' c.rest := by
  rcases value?_bind_eq_some_iff.1 h with ⟨name, e, hName, hRest⟩
  refine spans_of_behind strides_attributeName hName hSpans fun hSpans => ?_
  rcases value?_bind_eq_some_iff.1 hRest with ⟨_, f, hBlanks, hRest⟩
  refine spans_of_behind strides_skipBlanks hBlanks hSpans fun hSpans => ?_
  rcases value?_bind_eq_some_iff.1 hRest with ⟨ended, g, hEnd, hRest⟩
  cases hEnd
  split at hRest
  · next hNil =>
      rw [List.isEmpty_iff.1 hNil]
      exact spans_nil
  · rcases value?_bind_eq_some_iff.1 hRest with ⟨test, k, hTest, hMake⟩
    cases hMake
    exact spans_operatorAndValue hTest hSpans hFree

theorem spans_startTest
    {s : Selector E}
    (h : value? (startTest E) c = some (s, d))
    (hSpans : Spans '[' ']' c.rest) :
    Spans '(' ')' c.rest := by
  rcases value?_bind_eq_some_iff.1 h with ⟨start, e, hStart, hRest⟩
  refine spans_of_behind strides_identifier hStart hSpans fun hSpans => ?_
  rcases value?_bind_eq_some_iff.1 hRest with ⟨_, f, hBlanks, hRest⟩
  refine spans_of_behind strides_skipBlanks hBlanks hSpans fun _ => ?_
  rcases value?_bind_eq_some_iff.1 hRest with ⟨_, g, hEnd, _⟩
  exact spans_of_expectEnd hEnd

/- An attribute test is passed over if its value has no parenthesis. -/
theorem passes_attributeTest
    {s : Selector E}
    (h : value? (attributeTest E) c = some (s, d))
    (hFree : s.isParenFree = true) :
    c.Passes '(' ')' d := by
  rcases value?_bind_eq_some_iff.1 h with ⟨part, e, hPart, hWithin⟩
  rw [value?_within, Option.map_eq_some_iff] at hWithin
  rcases hWithin with ⟨⟨t, f⟩, hRead, hPair⟩
  cases hPair
  have hClosing : ']' ∉ ['\\', '"', '\'', '['] := by decide
  rcases (balanced_eq_ok_iff hClosing).1 (value?_eq_some_iff.1 hPart) with
    ⟨hSpans, hSplit, _, _⟩
  have hContent : Spans '(' ')' part.rest := by
    rcases value?_bind_eq_some_iff.1 hRead with ⟨_, g, hBlanks, hRest⟩
    refine spans_of_behind strides_skipBlanks hBlanks hSpans
      fun hSpans => ?_
    rcases value?_bind_eq_some_iff.1 hRest with ⟨caret, k, hCaret, hRest⟩
    have hChomp : ∀ {brackets}, Strides brackets (chomp "^") :=
      strides_chomp (by decide)
    refine spans_of_behind hChomp hCaret hSpans fun hSpans => ?_
    split at hRest
    · exact spans_startTest hRest hSpans
    · exact spans_namedTest hRest hSpans hFree
  have hOpen : Spans '(' ')' ['['] := spans_singleton (by decide)
  have hClose : Spans '(' ')' [']'] := spans_singleton (by decide)
  refine ⟨['['] ++ part.rest ++ [']'], by simp [hSplit], ?_⟩
  exact (hOpen.append hContent).append hClose

------------------------------------------------------------
-- Parts
------------------------------------------------------------

variable {nested : Cursor → Except Fault (Selector E)}

/- A part is passed over, apart from its attribute value. -/
theorem passes_part?
    {before : List (Selector E)}
    {s : Selector E}
    (h : value? (part? nested before) c = some (some s, d))
    (hFree : s.isParenFree = true) :
    c.Passes '(' ')' d := by
  have hRound : onlyBrackets '(' ')' '(' ')' = true := rfl
  rcases strides_part? hRound h with hTest | hOther
  · exact passes_attributeTest hTest hFree
  · exact Text.Strides.spans rfl hOther

/- Parts are passed over one after the other. -/
theorem passes_partsFrom
    {before parts : List (Selector E)}
    (h : partsFrom nested before c = .ok parts d)
    (hFree : ∀ s ∈ parts, s.isParenFree = true) :
    (∀ s ∈ before, s.isParenFree = true) ∧ c.Passes '(' ')' d := by
  fun_induction partsFrom nested before c with
  | case1 before c s e hPart _ ih =>
      rcases ih h with ⟨hBefore, hRest⟩
      have hFirst :=
        passes_part? (value?_eq_some_iff.2 hPart) (hBefore s (by simp))
      exact ⟨fun t hMem => hBefore t (by simp [hMem]), hFirst.trans hRest⟩
  | case2 before c e hPart =>
      rcases partStart?_of_part? hPart with ⟨rfl, _⟩
      cases h
      exact ⟨hFree, .refl _⟩
  | case3 before c fault e hPart => simp at h

theorem passes_compound
    {s : Selector E}
    (h : value? (compound nested) c = some (s, d))
    (hFree : s.isParenFree = true) :
    c.Passes '(' ')' d := by
  rw [value?_compound, Option.bind_eq_some_iff] at h
  rcases h with ⟨⟨parts, e⟩, hParts, hMake⟩
  dsimp only at hMake
  split at hMake
  · simp at hMake
  · cases hMake
    rw [Selector.isParenFree, Selector.everyPart_ofParts] at hFree
    exact (passes_partsFrom (value?_eq_some_iff.1 hParts)
      (List.all_eq_true.1 hFree)).2

------------------------------------------------------------
-- Chains
------------------------------------------------------------

/- Blanks and the signs of combinators are passed over. -/
theorem passes_link
    {step : Link}
    (h : value? link c = some (step, d)) :
    c.Passes '(' ')' d :=
  (strides_link h).spans rfl

/- A chain is passed over, and so is what it begins with. -/
theorem passes_chainFrom
    {left s : Selector E}
    (h : chainFrom nested left c = .ok s d)
    (hFree : s.isParenFree = true) :
    left.isParenFree = true ∧ c.Passes '(' ')' d := by
  fun_induction chainFrom nested left c with
  | case1 left c combinator right e hNext _ ih =>
      rcases ih h with ⟨hRelated, hRest⟩
      rw [Selector.isParenFree, Selector.everyPart_relate,
        Bool.and_eq_true] at hRelated
      rcases link_of_next?_some (value?_eq_some_iff.2 hNext) with
        ⟨f, hLink, hRight⟩
      have hFirst := (passes_link hLink).trans
        (passes_compound hRight hRelated.2)
      exact ⟨hRelated.1, hFirst.trans hRest⟩
  | case2 left c e hNext =>
      cases h
      have hLink := link_of_next? (value?_eq_some_iff.2 hNext)
      exact ⟨hFree, passes_link hLink⟩
  | case3 left c fault e hNext => simp at h

theorem passes_chain
    {s : Selector E}
    (h : value? (chain nested) c = some (s, d))
    (hFree : s.isParenFree = true) :
    c.Passes '(' ')' d := by
  rw [value?_chain] at h
  split at h
  · exact (passes_chainFrom (value?_eq_some_iff.1 h) hFree).2
  · rcases Option.bind_eq_some_iff.1 h with ⟨⟨first, e⟩, hFirst, hRest⟩
    rcases passes_chainFrom (value?_eq_some_iff.1 hRest) hFree with
      ⟨hFree', hLast⟩
    exact (passes_compound hFirst hFree').trans hLast

------------------------------------------------------------
-- Groups
------------------------------------------------------------

theorem passes_branch
    {s : Selector E}
    {goesOn : Bool}
    (h : value? (branch nested) c = some ((s, goesOn), d))
    (hFree : s.isParenFree = true) :
    c.Passes '(' ')' d := by
  rcases chain_of_branch h with ⟨e, _, hChain, hComma⟩
  have hSkip : Passes '(' ')' skipBlanks := strides_skipBlanks.passes rfl
  have hFirst := hSkip c c.skipBlanks c.atBlank rfl
  have hSign : Passes '(' ')' (chomp ",") :=
    (strides_chomp (by decide)).passes rfl
  exact (hFirst.trans (passes_chain hChain hFree)).trans
    (hSign _ _ _ (value?_eq_some_iff.1 hComma))

theorem passes_branchesFrom
    {before branches : List (Selector E)}
    (h : branchesFrom nested before c = .ok branches d)
    (hFree : ∀ s ∈ branches, s.isParenFree = true) :
    (∀ s ∈ before, s.isParenFree = true) ∧ c.Passes '(' ')' d := by
  fun_induction branchesFrom nested before c with
  | case1 before c s e hBranch _ ih =>
      rcases ih h with ⟨hBefore, hRest⟩
      have hFirst :=
        passes_branch (value?_eq_some_iff.2 hBranch) (hBefore s (by simp))
      exact ⟨fun t hMem => hBefore t (by simp [hMem]), hFirst.trans hRest⟩
  | case2 before c s e hBranch =>
      cases h
      have hFirst :=
        passes_branch (value?_eq_some_iff.2 hBranch) (hFree s (by simp))
      exact ⟨fun t hMem => hFree t (by simp [hMem]), hFirst⟩
  | case3 before c fault e hBranch => simp at h

/-
  A text that is read as a selector is passed over between
  parentheses if no attribute value of the selector has one.
-/
theorem spans_of_readPart
    {s : Selector E}
    (h : readPart E c = .ok s)
    (hFree : s.isParenFree = true) :
    Spans '(' ')' c.rest := by
  rcases readPart_eq_ok_iff.1 h with ⟨d, hGroup⟩
  have hEnd := rest_of_group hGroup
  rw [value?_group, Option.map_eq_some_iff] at hGroup
  rcases hGroup with ⟨⟨branches, e⟩, hRead, hPair⟩
  cases hPair
  rw [Selector.isParenFree, Selector.everyPart_ofBranches] at hFree
  have hWhole :=
    (passes_branchesFrom (value?_eq_some_iff.1 hRead)
      (List.all_eq_true.1 hFree)).2
  refine hWhole.spans_of_rest ?_
  rw [hEnd]
  exact spans_nil

end Scan

end TreeQuery
