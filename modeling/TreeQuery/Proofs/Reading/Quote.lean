import TreeQuery.Proofs.Reading.PseudoClass

/-
  Where quoted texts end.

  A quoted text is read in three ways: with its escapes
  resolved, as it is written, and as a part of a bracketed text
  that is passed over.  An escape may take up to seven
  characters more than the one behind its backslash, but none
  of them is a quote or a backslash, so that all three stop at
  the same quote.

  Key definitions include:
    * `specialChars`
    * `QuotedText.rest?`
    * `areBrackets`

  Main statements:
    * `cases_of_readEscape?`
    * `readQuoted_rest?`
    * `readBalanced?_quoted`
    * `spans_of_readQuotedRaw`
-/

namespace TreeQuery

------------------------------------------------------------
-- Escapes
------------------------------------------------------------

/- A character that an escape may take behind its first one. -/
def isEscapeTail (x : Char) : Bool :=
  Text.isHexDigit x || Text.isBlank x

/- The characters that count where the end of a bracket is looked for. -/
def specialChars : List Char :=
  ['\\', '"', '\'', '(', ')', '[', ']']

/- An escape takes none of them there. -/
theorem not_special_of_isEscapeTail
    {x : Char}
    (h : isEscapeTail x = true) :
    x ∉ specialChars := by
  intro hMem
  have hAll :
      ∀ x ∈ specialChars, isEscapeTail x = false :=
    List.all_iff_forall_prop.1 (by decide)
  rw [hAll x hMem] at h
  exact absurd h (by simp)

/-
  An escape is a single character that is no hexadecimal digit
  and stands for itself, or some digits that name a character
  by its code, with the blank behind them.
-/
theorem cases_of_readEscape?
    {cs rest : List Char}
    {d : Char}
    (h : Text.readEscape? cs = some (d, rest)) :
    Text.isHexDigit d = false ∧ cs = d :: rest ∨
      ∃ digits blanks, digits ≠ [] ∧
        (∀ y ∈ digits, Text.isHexDigit y = true) ∧
          Text.AreBlanks blanks ∧ cs = digits ++ (blanks ++ rest) ∧
            d = Text.namedChar digits := by
  have hBlank :
      ∀ text : List Char, ∃ blanks, Text.AreBlanks blanks ∧
        text = blanks ++ Text.dropBlank text := by
    intro text
    cases text with
    | nil => exact ⟨[], .nil, rfl⟩
    | cons y ys =>
        by_cases hY : Text.isBlank y = true
        · exact ⟨[y], by simpa [Text.AreBlanks] using hY,
            by simp [Text.dropBlank, hY]⟩
        · exact ⟨[], .nil, by simp [Text.dropBlank, hY]⟩
  unfold Text.readEscape? at h
  simp only at h
  split at h
  · next hDigits =>
      cases cs with
      | nil => simp at h
      | cons c cs =>
          cases h
          refine .inl ⟨?_, rfl⟩
          by_contra hHex
          simp [hHex] at hDigits
  · next hDigits =>
      generalize hRead : (cs.take 6).takeWhile Text.isHexDigit = digits
        at h hDigits
      cases h
      have hHex : ∀ y ∈ digits, Text.isHexDigit y = true := by
        rw [← hRead]
        exact List.all_eq_true.1 List.all_takeWhile
      have hPrefix : digits <+: cs := by
        rw [← hRead]
        exact (List.takeWhile_prefix _).trans (List.take_prefix 6 cs)
      rcases hPrefix with ⟨after, rfl⟩
      rw [List.drop_left]
      rcases hBlank after with ⟨blanks, hBlanks, hAfter⟩
      exact .inr ⟨digits, blanks, by simpa using hDigits, hHex, hBlanks,
        by rw [← hAfter], rfl⟩

/-
  An escape takes the character behind its backslash, whatever
  that is, and then only digits and a blank.
-/
theorem exists_of_readEscape?
    {cs rest : List Char}
    {d : Char}
    (h : Text.readEscape? cs = some (d, rest)) :
    ∃ x xs, cs = x :: (xs ++ rest) ∧
      ∀ y ∈ xs, isEscapeTail y = true := by
  rcases cases_of_readEscape? h with
    ⟨_, rfl⟩ | ⟨digits, blanks, hSome, hHex, hBlanks, rfl, _⟩
  · exact ⟨d, [], rfl, by simp⟩
  · cases digits with
    | nil => exact absurd rfl hSome
    | cons x xs =>
        refine ⟨x, xs ++ blanks, by simp, fun y hMem => ?_⟩
        rcases List.mem_append.1 hMem with hDigit | hBlank
        · simp [isEscapeTail, hHex y (List.mem_cons_of_mem x hDigit)]
        · simp [isEscapeTail, hBlanks y hBlank]

/- An escape is cut off only where nothing follows its backslash. -/
theorem eq_nil_of_readEscape?
    {cs : List Char}
    (h : Text.readEscape? cs = none) :
    cs = [] := by
  unfold Text.readEscape? at h
  simp only at h
  split at h
  · cases cs with
    | nil => rfl
    | cons c cs => simp at h
  · simp at h

------------------------------------------------------------
-- Readers of Quoted Texts
------------------------------------------------------------

namespace QuotedText

/- The text behind the closing quote, if there is one. -/
def rest? : QuotedText → Option (List Char)
| .closed _ rest => some rest
| .endsInside => none
| .endsInEscape => none

@[simp]
theorem rest?_cons (c : Char) (q : QuotedText) :
    (q.cons c).rest? = q.rest? := by
  cases q with
  | closed content rest => rfl
  | endsInside => rfl
  | endsInEscape => rfl

theorem rest?_eq_some_iff
    {q : QuotedText}
    {rest : List Char} :
    q.rest? = some rest ↔ ∃ content, q = .closed content rest := by
  cases q with
  | closed content rest' => simp [rest?]
  | endsInside => simp [rest?]
  | endsInEscape => simp [rest?]

end QuotedText

section Quotes

variable {quote : Char}

/- Outside of escapes the quote is looked for character by character. -/
theorem readQuotedRaw_cons
    {c : Char}
    (hQuote : c ≠ quote)
    (hSlash : c ≠ '\\')
    (cs : List Char) :
    readQuotedRaw quote (c :: cs) = (readQuotedRaw quote cs).cons c := by
  cases cs with
  | nil => simp [readQuotedRaw, hQuote, QuotedText.cons]
  | cons d ds => rw [readQuotedRaw, if_neg hQuote, if_neg hSlash]

theorem readQuotedRaw_quote (cs : List Char) :
    readQuotedRaw quote (quote :: cs) = .closed [] cs := by
  cases cs with
  | nil => simp [readQuotedRaw]
  | cons d ds => simp [readQuotedRaw]

variable (hQuote : isQuote quote = true)

include hQuote

theorem eq_of_isQuote : quote = '"' ∨ quote = '\'' := by
  simpa [isQuote] using hQuote

theorem slash_ne_quote : '\\' ≠ quote := by
  rintro rfl
  exact absurd hQuote (by decide)

theorem readQuotedRaw_slash
    (c : Char)
    (cs : List Char) :
    readQuotedRaw quote ('\\' :: c :: cs) =
      ((readQuotedRaw quote cs).cons c).cons '\\' := by
  rw [readQuotedRaw, if_neg (slash_ne_quote hQuote), if_pos rfl]

/- What an escape takes behind its first character closes no quote. -/
theorem readQuotedRaw_tail
    {xs : List Char}
    (hTail : ∀ x ∈ xs, isEscapeTail x = true)
    (cs : List Char) :
    (readQuotedRaw quote (xs ++ cs)).rest? =
      (readQuotedRaw quote cs).rest? := by
  induction xs with
  | nil => rfl
  | cons x xs ih =>
      have hPlain := not_special_of_isEscapeTail (hTail x (by simp))
      have hSlash : x ≠ '\\' := by
        rintro rfl
        exact hPlain (by decide)
      have hOther : x ≠ quote := by
        rintro rfl
        rcases eq_of_isQuote hQuote with rfl | rfl
        · exact hPlain (by decide)
        · exact hPlain (by decide)
      rw [List.cons_append, readQuotedRaw_cons hOther hSlash,
        QuotedText.rest?_cons]
      exact ih fun y hMem => hTail y (by simp [hMem])

/-
  Resolving escapes does not change where a quoted text ends.
  The induction is on the text that resolves them.
-/
theorem readQuoted_rest? (cs : List Char) :
    (readQuoted quote cs).rest? = (readQuotedRaw quote cs).rest? := by
  fun_induction readQuoted quote cs with
  | case1 => simp [readQuotedRaw]
  | case2 cs => rw [readQuotedRaw_quote]
  | case3 cs hEscape hOther =>
      cases eq_nil_of_readEscape? hEscape
      simp [readQuotedRaw, hOther, QuotedText.rest?]
  | case4 cs d after hEscape _ hOther ih =>
      rcases exists_of_readEscape? hEscape with ⟨x, xs, rfl, hTail⟩
      rw [readQuotedRaw_slash hQuote, QuotedText.rest?_cons,
        QuotedText.rest?_cons, QuotedText.rest?_cons,
        readQuotedRaw_tail hQuote hTail, ih]
  | case5 c cs hOther hSlash ih =>
      rw [readQuotedRaw_cons hOther hSlash, QuotedText.rest?_cons,
        QuotedText.rest?_cons, ih]

/- A quoted text is its content, the quote and what follows. -/
omit hQuote in
theorem readQuotedRaw_split
    {cs content rest : List Char}
    (h : readQuotedRaw quote cs = .closed content rest) :
    cs = content ++ quote :: rest := by
  fun_induction readQuotedRaw quote cs generalizing content with
  | case1 => simp at h
  | case2 =>
      cases h
      rfl
  | case3 c hOther => simp at h
  | case4 d cs =>
      cases h
      rfl
  | case5 d cs hOther ih =>
      rcases QuotedText.cons_eq_closed h with ⟨tail, hTail, rfl⟩
      rcases QuotedText.cons_eq_closed hTail with ⟨tail', hTail', rfl⟩
      simp [ih hTail']
  | case6 c d cs hOther hSlash ih =>
      rcases QuotedText.cons_eq_closed h with ⟨tail, hTail, rfl⟩
      simp [ih hTail]

/- What follows the closing quote does not matter. -/
theorem readQuotedRaw_resume
    {cs content rest : List Char}
    (h : readQuotedRaw quote cs = .closed content rest)
    (after : List Char) :
    readQuotedRaw quote (content ++ quote :: after) =
      .closed content after := by
  fun_induction readQuotedRaw quote cs generalizing content with
  | case1 => simp at h
  | case2 =>
      cases h
      exact readQuotedRaw_quote after
  | case3 c hOther => simp at h
  | case4 d cs =>
      cases h
      exact readQuotedRaw_quote after
  | case5 d cs hOther ih =>
      rcases QuotedText.cons_eq_closed h with ⟨tail, hTail, rfl⟩
      rcases QuotedText.cons_eq_closed hTail with ⟨tail', hTail', rfl⟩
      rw [List.cons_append, List.cons_append, readQuotedRaw_slash hQuote,
        ih hTail']
      rfl
  | case6 c d cs hOther hSlash ih =>
      rcases QuotedText.cons_eq_closed h with ⟨tail, hTail, rfl⟩
      rw [List.cons_append, readQuotedRaw_cons hOther hSlash, ih hTail]
      rfl

/-
  Between brackets a quoted text is passed over to the quote at
  which it ends, and one without an end is not passed at all.
-/
theorem readBalanced?_quoted
    (opening closing : Char)
    (depth : Nat)
    (cs : List Char) :
    readBalanced? opening closing depth (some quote) cs =
      match readQuotedRaw quote cs with
      | .closed content rest =>
          prependText (content ++ [quote])
            (readBalanced? opening closing depth none rest)
      | _ => none := by
  have hOuter := slash_ne_quote hQuote
  fun_induction readQuotedRaw quote cs with
  | case1 => simp [readBalanced?]
  | case2 =>
      rw [readBalanced?_some hOuter.symm, if_pos rfl]
      simp [readBalanced?, prepend, prependText]
  | case3 c hOther =>
      by_cases hSlash : c = '\\'
      · subst hSlash
        simp [readBalanced?]
      · rw [readBalanced?_some hSlash, if_neg hOther]
        simp [readBalanced?, prepend]
  | case4 d cs =>
      rw [readBalanced?_some hOuter.symm, if_pos rfl]
      rfl
  | case5 d cs hOther ih =>
      rw [readBalanced?, ih]
      cases readQuotedRaw quote cs with
      | closed content rest =>
          simp only [QuotedText.cons, prepend_prependText]
          rfl
      | endsInside => rfl
      | endsInEscape => rfl
  | case6 c d cs hOther hSlash ih =>
      rw [readBalanced?_some hSlash, if_neg hOther, ih]
      cases readQuotedRaw quote (d :: cs) with
      | closed content rest =>
          simp only [QuotedText.cons, prepend_prependText]
          rfl
      | endsInside => rfl
      | endsInEscape => rfl

/- A quoted text that is passed over ends before the bracket does. -/
theorem readQuotedRaw_of_spans
    {opening closing : Char}
    (hClosing : closing ∉ ['\\', '"', '\'', opening])
    {cs : List Char}
    (h : Spans opening closing (quote :: cs)) :
    ∃ content rest, readQuotedRaw quote cs = .closed content rest := by
  have hWhole := eq_of_beq (h.isBalanced hClosing)
  rw [List.cons_append,
    readBalanced?_none (slash_ne_quote hQuote).symm, if_pos hQuote,
    readBalanced?_quoted hQuote] at hWhole
  cases hRead : readQuotedRaw quote (cs ++ [closing]) with
  | endsInside => simp [hRead, prepend] at hWhole
  | endsInEscape => simp [hRead, prepend] at hWhole
  | closed content rest =>
      -- Something is left behind the quote: the bracket itself.
      have hRest : rest ≠ [] := by
        rintro rfl
        simp [hRead, readBalanced?, prepend, prependText] at hWhole
      have hSplit := readQuotedRaw_split hRead
      have hFront :
          cs = content ++ quote :: rest.dropLast := by
        have hDrop := congrArg List.dropLast hSplit
        rwa [List.dropLast_concat, List.dropLast_append_of_ne_nil (by simp),
          List.dropLast_cons_of_ne_nil hRest] at hDrop
      refine ⟨content, rest.dropLast, ?_⟩
      rw [hFront]
      exact readQuotedRaw_resume hQuote hRead rest.dropLast

/- So a quoted text as a whole is passed over. -/
theorem spans_of_readQuotedRaw
    {opening closing : Char}
    {cs content rest : List Char}
    (h : readQuotedRaw quote cs = .closed content rest) :
    Spans opening closing (quote :: (content ++ [quote])) := by
  intro depth after
  have hAgain := readQuotedRaw_resume hQuote h after
  rw [List.cons_append, List.append_assoc, List.singleton_append,
    readBalanced?_none (slash_ne_quote hQuote).symm, if_pos hQuote,
    readBalanced?_quoted hQuote, hAgain]
  exact prepend_prependText _ _ _

/- The closing quote is no blank, so no trimming takes it away. -/
theorem trimEnd_quoted (content rest : List Char) :
    Text.trimEnd (quote :: (content ++ quote :: rest)) =
      quote :: (content ++ quote :: Text.trimEnd rest) := by
  have hUnblank : Text.isBlank quote = false := by
    rcases eq_of_isQuote hQuote with rfl | rfl
    · decide
    · decide
  have hReverse :
      (quote :: (content ++ quote :: rest)).reverse =
        rest.reverse ++ quote :: (quote :: content).reverse := by
    simp
  have hNone :
      (quote :: (quote :: content).reverse).dropWhile Text.isBlank =
        quote :: (quote :: content).reverse :=
    List.dropWhile_cons_of_neg (by simp [hUnblank])
  unfold Text.trimEnd
  rw [hReverse, List.dropWhile_append]
  by_cases hBlanks : (rest.reverse.dropWhile Text.isBlank).isEmpty = true
  · rw [if_pos hBlanks, hNone, List.isEmpty_iff.1 hBlanks]
    simp
  · rw [if_neg hBlanks]
    simp

end Quotes

------------------------------------------------------------
-- Texts Before a Quote
------------------------------------------------------------

/- An escape is passed over, whatever it marks. -/
theorem spans_escape
    {opening closing : Char}
    (x : Char) :
    Spans opening closing ['\\', x] := by
  intro depth rest
  cases h : readBalanced? opening closing depth none rest with
  | none => simp [readBalanced?, prepend, prependText, h]
  | some read => simp [readBalanced?, prepend, prependText, h]

/- The brackets around arguments and around attribute tests. -/
def areBrackets (opening closing : Char) : Bool :=
  opening == '(' && closing == ')' || opening == '[' && closing == ']'

section Brackets

variable {opening closing : Char}
variable (hBrackets : areBrackets opening closing = true)

include hBrackets

theorem cases_of_areBrackets :
    opening = '(' ∧ closing = ')' ∨ opening = '[' ∧ closing = ']' := by
  simpa [areBrackets] using hBrackets

/- Between either of them, other characters mean nothing. -/
theorem not_special_of_areBrackets
    {x : Char}
    (hPlain : x ∉ specialChars) :
    x ∉ ['\\', '"', '\'', opening, closing] := by
  simp only [specialChars, List.mem_cons, List.not_mem_nil, or_false,
    not_or] at hPlain ⊢
  rcases hPlain with ⟨hSlash, hDouble, hSingle, hSides⟩
  rcases cases_of_areBrackets hBrackets with ⟨rfl, rfl⟩ | ⟨rfl, rfl⟩
  · exact ⟨hSlash, hDouble, hSingle, hSides.1, hSides.2.1⟩
  · exact ⟨hSlash, hDouble, hSingle, hSides.2.2.1, hSides.2.2.2⟩

/- Blanks are passed over. -/
theorem spans_blanks
    {text : List Char}
    (h : ∀ x ∈ text, Text.isBlank x = true) :
    Spans opening closing text := by
  refine spans_of_forall fun x hMem => ?_
  refine not_special_of_areBrackets hBrackets ?_
  exact not_special_of_isEscapeTail (by simp [isEscapeTail, h x hMem])

end Brackets

end TreeQuery
