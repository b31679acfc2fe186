import TreeQuery.Proofs.Reading.Legible
import TreeQuery.Proofs.Text.Lowercase

/-
  Pseudo-classes that are read again from their text.

  The name of a pseudo-class is found in the table, and its
  argument is read between parentheses as it was written.

  Main statements:
    * `Scan.pseudoClass_named`
    * `Scan.value?_pseudoClass`
    * `Scan.value?_argument`
    * `Scan.needle_needle`
-/

namespace TreeQuery.Scan

variable {E : Engine}

variable (nested : Cursor → Except Fault (Selector E))

------------------------------------------------------------
-- Names
------------------------------------------------------------

/- Whatever has a meaning is a name. -/
theorem isName_of_pseudoClass?
    {name : String}
    {known : PseudoClass E}
    (hKnown : pseudoClass? E (Text.asciiLowerString name) = some known) :
    isName name.toList = true := by
  have hAll :
      (((pseudoClasses E).map Prod.fst).all fun entry =>
        isName entry.toList) = true := by
    simp only [pseudoClasses, List.map_cons, List.map_nil]
    decide
  have hMem :
      Text.asciiLowerString name ∈ (pseudoClasses E).map Prod.fst :=
    List.mem_map_of_mem (mem_pseudoClasses hKnown)
  have hName := List.all_eq_true.1 hAll _ hMem
  rwa [Text.asciiLowerString, String.toList_ofList, isName_asciiLower]
    at hName

/- After a colon and a name its meaning is read. -/
theorem pseudoClass_named
    {name : String}
    {known : PseudoClass E}
    {rest : List Char}
    (hKnown : pseudoClass? E (Text.asciiLowerString name) = some known)
    (hRest : endsName rest = true)
    (before : List (Selector E))
    (o : Nat) :
    pseudoClass nested before ⟨o, ':' :: (name.toList ++ rest)⟩ =
      meaning nested before (Text.asciiLowerString name) known
        ⟨o + ':'.utf8Size + Text.byteLength name.toList, rest⟩ := by
  have hName := isName_of_pseudoClass? hKnown
  have hColon : (name.toList ++ rest).head? ≠ some ':' := by
    cases hText : name.toList with
    | nil => simp [hText, isName] at hName
    | cons x xs =>
        simp only [hText, isName, Bool.and_eq_true, List.all_cons] at hName
        rw [List.cons_append, List.head?_cons, ne_eq, Option.some.injEq]
        rintro rfl
        revert hName
        simp [isIdentifierChar]
  have hRead := identifier_append hName hRest (o + ':'.utf8Size)
  rw [String.ofList_toList] at hRead
  have hSmall :
      pseudoClassName o ⟨o + ':'.utf8Size, name.toList ++ rest⟩ =
        .ok (Text.asciiLowerString name)
          ⟨o + ':'.utf8Size + Text.byteLength name.toList, rest⟩ := by
    rw [← value?_eq_some_iff, pseudoClassName, value?_bind, value?_peek?,
      Option.bind_some]
    simp only [hColon, ↓reduceIte, value?_map, value?_eq_some_iff.2 hRead,
      Option.map_some]
  have hOffset :
      offset ⟨o, ':' :: (name.toList ++ rest)⟩ =
        .ok o ⟨o, ':' :: (name.toList ++ rest)⟩ :=
    rfl
  have hAdvance :
      advance ⟨o, ':' :: (name.toList ++ rest)⟩ =
        .ok () ⟨o + ':'.utf8Size, name.toList ++ rest⟩ :=
    rfl
  rw [pseudoClass, bind_eq_of_ok hOffset, bind_eq_of_ok hAdvance,
    bind_eq_of_ok hSmall]
  simp only [hKnown]

theorem value?_pseudoClass
    {name : String}
    {known : PseudoClass E}
    {rest : List Char}
    (hKnown : pseudoClass? E (Text.asciiLowerString name) = some known)
    (hRest : endsName rest = true)
    (before : List (Selector E))
    (o : Nat) :
    ∃ e, value? (pseudoClass nested before)
        ⟨o, ':' :: (name.toList ++ rest)⟩ =
      value? (meaning nested before (Text.asciiLowerString name) known)
        ⟨e, rest⟩ := by
  have hRead := pseudoClass_named nested hKnown hRest before o
  refine ⟨o + ':'.utf8Size + Text.byteLength name.toList, ?_⟩
  unfold value?
  rw [hRead]

------------------------------------------------------------
-- Arguments
------------------------------------------------------------

/-
  An argument is the text between two parentheses, without the
  blanks around it.
-/
theorem argument_eq_ok_iff
    {name : String}
    {c d part : Cursor} :
    argument name c = .ok part d ↔
      ∃ text, Spans '(' ')' text ∧ Text.trim text ≠ [] ∧
        c.rest = '(' :: (text ++ ')' :: d.rest) ∧ d = c.moveTo d.rest ∧
          part =
            ⟨(Cursor.skipBlanks ⟨c.offset + '('.utf8Size, text⟩).offset,
              Text.trim text⟩ := by
  have hClosing : ')' ∉ ['\\', '"', '\'', '('] := by decide
  constructor
  · intro h
    rcases bind_eq_ok_iff.1 h with ⟨whole, e, hWhole, hTrim⟩
    rcases bind_eq_ok_iff.1 hWhole with ⟨next, f, hPeek, hRead⟩
    cases hPeek
    split at hRead
    · split at hTrim
      · simp [failAt] at hTrim
      · next hSome =>
          rcases pure_eq_ok_iff.1 hTrim with ⟨rfl, rfl⟩
          rcases (balanced_eq_ok_iff hClosing).1 hRead with
            ⟨hSpans, hCons, hOffset, hMoved⟩
          rcases whole with ⟨o, text⟩
          cases hOffset
          exact ⟨text, hSpans, by simpa using hSome, hCons, hMoved, rfl⟩
    · rcases bind_eq_ok_iff.1 hRead with ⟨_, f, _, hFail⟩
      simp [fail] at hFail
  · rintro ⟨text, hSpans, hSome, hCons, hMoved, rfl⟩
    have hPeek : peek? c = .ok (some '(') c := by
      simp [peek?, Cursor.peek?, hCons]
    have hRead :
        balanced '(' ')' .unbalancedParenthesis c =
          .ok ⟨c.offset + '('.utf8Size, text⟩ d :=
      (balanced_eq_ok_iff hClosing).2 ⟨hSpans, hCons, rfl, hMoved⟩
    have hWhole :
        parenthesized name c = .ok ⟨c.offset + '('.utf8Size, text⟩ d := by
      rw [parenthesized, bind_eq_of_ok hPeek, if_pos rfl, hRead]
    rw [argument, bind_eq_of_ok hWhole, if_neg (by simpa using hSome)]
    rfl

/- An argument is read without its parentheses. -/
theorem value?_argument
    {text : List Char}
    (hText : isArgument text = true)
    (hSome : text ≠ [])
    (name : String)
    (rest : List Char)
    (o : Nat) :
    ∃ o', value? (argument name) ⟨o, '(' :: text ++ ')' :: rest⟩ =
      some (⟨o + '('.utf8Size, text⟩, ⟨o', rest⟩) := by
  simp only [isArgument, Bool.and_eq_true, beq_iff_eq] at hText
  rcases hText with ⟨hBalanced, hTrim⟩
  rcases Text.trimEnd_of_trim hTrim hSome with ⟨_, x, xs, hHead, hUnblank⟩
  have hSkip :
      (⟨o + '('.utf8Size, text⟩ : Cursor).skipBlanks =
        ⟨o + '('.utf8Size, text⟩ := by
    rw [hHead]
    exact Cursor.skipBlanks_cons_of_not hUnblank _ _
  refine ⟨(Cursor.moveTo ⟨o, '(' :: text ++ ')' :: rest⟩ rest).offset, ?_⟩
  refine value?_eq_some_iff.2 (argument_eq_ok_iff.2 ⟨text, ?_⟩)
  refine ⟨spans_of_isBalanced hBalanced, ?_, rfl, rfl, ?_⟩
  · rwa [hTrim]
  · rw [hSkip, hTrim]

/- Formulas and numbers are written as arguments. -/
theorem isArgument_of_formulaChars
    {text : List Char}
    (hSome : text ≠ [])
    (hChars : ∀ c ∈ text, Formula.isFormulaChar c = true) :
    isArgument text = true := by
  have hNeat :=
    isNeat_of_quiet hSome fun c hMem =>
      isQuiet_of_isFormulaChar (hChars c hMem)
  exact hNeat.isArgument

/- The text of a formula is not empty, since no formula is. -/
theorem formula_text_ne_nil (f : Formula) : f.text.toList ≠ [] := by
  intro hNil
  have hRead := Formula.parse?_text f
  have hText : f.text = "" := by simpa using hNil
  rw [hText] at hRead
  revert hRead
  simp [Formula.parse?, Text.asciiLower, Formula.readCompact?,
    Formula.readSigned?, Text.readDigits?]

/- A formula is read from its text. -/
theorem value?_formulaArgument
    (f : Formula)
    (name : String)
    (rest : List Char)
    (o : Nat) :
    ∃ o', value? (formulaArgument name)
        ⟨o, '(' :: f.text.toList ++ ')' :: rest⟩ =
      some (f, ⟨o', rest⟩) := by
  have hArgument :=
    isArgument_of_formulaChars (formula_text_ne_nil f)
      fun c hMem => Formula.isFormulaChar_of_mem_text hMem
  rcases value?_argument hArgument (formula_text_ne_nil f) name rest o with
    ⟨o', hPart⟩
  refine ⟨o', ?_⟩
  rw [formulaArgument, value?_bind, hPart, Option.bind_some]
  simp only [argumentText, String.ofList_toList, Formula.parse?_text]
  rfl

/- An index that fits is read from its digits. -/
theorem value?_indexArgument
    {n : Nat}
    (hFits : n < UInt64.size)
    (name : String)
    (rest : List Char)
    (o : Nat) :
    ∃ o', value? (indexArgument name)
        ⟨o, '(' :: (toString n).toList ++ ')' :: rest⟩ =
      some (n, ⟨o', rest⟩) := by
  have hArgument :=
    isArgument_of_formulaChars (Text.toString_ne_nil n)
      fun c hMem => by
        simp [Formula.isFormulaChar, Text.isDigit_of_mem_toString hMem]
  have hIndex : readIndex? (toString n).toList = some n := by
    rw [readIndex?, Text.readDigits?_toString, Option.filter_some,
      if_pos (decide_eq_true hFits)]
  rcases value?_argument hArgument (Text.toString_ne_nil n) name rest o with
    ⟨o', hPart⟩
  refine ⟨o', ?_⟩
  rw [indexArgument, value?_bind, hPart, Option.bind_some]
  simp only [hIndex]
  rfl

/- A quoted argument is read as what it quotes. -/
theorem value?_textArgument_quoted
    (text name : String)
    (rest : List Char)
    (o : Nat) :
    ∃ e o', value? (textArgument name true)
        ⟨o, '(' :: (Text.quoted text).toList ++ ')' :: rest⟩ =
      if text.isEmpty then none else some ((e, text), ⟨o', rest⟩) := by
  have hHead :
      (Text.quoted text).toList =
        '"' :: (Text.escapeQuoted text.toList ++ ['"']) := by
    simp [Text.quoted]
  have hUnblank : Text.isBlank '"' = false := by decide
  have hQuote : isQuote '"' = true := by decide
  have hNeat : IsNeat (Text.quoted text).toList :=
    ⟨spans_quoted text, ⟨_, _, hHead, hUnblank⟩,
      ⟨'"' :: Text.escapeQuoted text.toList, '"', by simp [hHead],
        hUnblank⟩⟩
  rcases value?_argument hNeat.isArgument (by simp [hHead]) name rest o with
    ⟨o', hPart⟩
  rcases value?_quoted text [] (o + '('.utf8Size) with ⟨e, hRead⟩
  rw [List.append_nil] at hRead
  refine ⟨o + '('.utf8Size, o', ?_⟩
  rw [textArgument, value?_bind, hPart, Option.bind_some]
  have hPeek :
      (⟨o + '('.utf8Size, (Text.quoted text).toList⟩ : Cursor).peek?.any
        isQuote = true := by
    rw [hHead]
    exact hQuote
  simp only [hPeek, ↓reduceIte, value?_bind, value?_within, quotedArgument,
    hRead, Option.bind_some, value?_expectEnd, List.isEmpty_nil,
    value?_pure, Option.map_some]
  by_cases hEmpty : text.isEmpty = true
  · simp [hEmpty]
  · simp [hEmpty]

/- The text of a pattern is read as it stands. -/
theorem value?_textArgument_pattern
    {text : String}
    (hText : isPatternText '(' ')' text.toList = true)
    (hSome : text ≠ "")
    (name : String)
    (rest : List Char)
    (o : Nat) :
    ∃ e o', value? (textArgument name false)
        ⟨o, '(' :: text.toList ++ ')' :: rest⟩ =
      some ((e, text), ⟨o', rest⟩) := by
  simp only [isPatternText, Bool.and_eq_true, Bool.not_eq_true'] at hText
  rcases hText with ⟨hArgument, hQuote⟩
  have hSome' : text.toList ≠ [] := by
    intro hNil
    exact hSome (by simpa using hNil)
  rcases value?_argument (by rw [isArgument, hArgument.1, hArgument.2]; rfl)
    hSome' name rest o with ⟨o', hPart⟩
  refine ⟨o + '('.utf8Size, o', ?_⟩
  rw [textArgument, value?_bind, hPart, Option.bind_some]
  have hPeek :
      (⟨o + '('.utf8Size, text.toList⟩ : Cursor).peek?.any isQuote =
        false :=
    hQuote
  simp [hPeek, argumentText]

/- A needle is its own needle. -/
theorem needle_needle (source : TextSource) (text : String) :
    needle source (needle source text) = needle source text := by
  unfold needle
  by_cases hNormal : source.isNormalized = true
  · simp only [hNormal, ↓reduceIte, String.toList_ofList]
    rw [Text.normalizeBlanks_lowercase, Text.lowercase_lowercase]
  · simp [hNormal]

end TreeQuery.Scan
