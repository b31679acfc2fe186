import TreeQuery.Proofs.Reading.Quote

/-
  The texts that may stand between two brackets.

  They are put together from characters that mean nothing to
  brackets, escapes, quoted texts, and texts between the same
  brackets again.  Counting the brackets that are open, with a
  note of the quote that is open, passes over exactly these.

  Key definitions include:
    * `FitsInQuotes`
    * `FitsBetween`
    * `Closes`

  Main statements:
    * `closesFrom_of_readBalanced?`
    * `spans_iff_fitsBetween`
    * `fitsBetween_unique`
    * `Scan.brackets_are_read_iff`
-/

namespace TreeQuery

------------------------------------------------------------
-- Texts Between Brackets
------------------------------------------------------------

/-
  The text may stand between two quotes.  Brackets and the
  other quote mean nothing there.
-/
inductive FitsInQuotes (quote : Char) : List Char → Prop
| nil : FitsInQuotes quote []
| plain {c : Char} {rest : List Char}
    (hSlash : c ≠ '\\')
    (hOther : c ≠ quote)
    (hRest : FitsInQuotes quote rest) : FitsInQuotes quote (c :: rest)
| escape (c : Char) {rest : List Char}
    (hRest : FitsInQuotes quote rest) :
    FitsInQuotes quote ('\\' :: c :: rest)

/- The text may stand between two brackets. -/
inductive FitsBetween (opening closing : Char) : List Char → Prop
| nil : FitsBetween opening closing []
| plain {c : Char} {rest : List Char}
    (hPlain : c ∉ ['\\', '"', '\'', opening, closing])
    (hRest : FitsBetween opening closing rest) :
    FitsBetween opening closing (c :: rest)
| escape (c : Char) {rest : List Char}
    (hRest : FitsBetween opening closing rest) :
    FitsBetween opening closing ('\\' :: c :: rest)
| quoted {quote : Char} {inside rest : List Char}
    (hQuote : isQuote quote = true)
    (hInside : FitsInQuotes quote inside)
    (hRest : FitsBetween opening closing rest) :
    FitsBetween opening closing (quote :: (inside ++ quote :: rest))
| nested {inside rest : List Char}
    (hInside : FitsBetween opening closing inside)
    (hRest : FitsBetween opening closing rest) :
    FitsBetween opening closing (opening :: (inside ++ closing :: rest))

------------------------------------------------------------
-- They Are Passed Over
------------------------------------------------------------

/- What fits between quotes is read up to the closing one. -/
theorem readQuotedRaw_of_fitsInQuotes
    {quote : Char}
    (hQuote : isQuote quote = true)
    {inside : List Char}
    (h : FitsInQuotes quote inside)
    (rest : List Char) :
    readQuotedRaw quote (inside ++ quote :: rest) =
      .closed inside rest := by
  induction h with
  | nil => exact readQuotedRaw_quote rest
  | plain hSlash hOther _ ih =>
      rw [List.cons_append, readQuotedRaw_cons hOther hSlash, ih]
      rfl
  | escape c _ ih =>
      rw [List.cons_append, List.cons_append, readQuotedRaw_slash hQuote,
        ih]
      rfl

section Brackets

variable {opening closing : Char}
variable (hOpening : opening ∉ ['\\', '"', '\''])
variable (hClosing : closing ∉ ['\\', '"', '\'', opening])

include hOpening hClosing in
/- One piece after the other is passed over. -/
theorem FitsBetween.spans
    {text : List Char}
    (h : FitsBetween opening closing text) :
    Spans opening closing text := by
  induction h with
  | nil => exact spans_nil
  | plain hPlain _ ih => exact (spans_singleton hPlain).append ih
  | escape c _ ih => exact (spans_escape c).append ih
  | @quoted quote inside rest hQuote hInside _ ih =>
      have hRead := readQuotedRaw_of_fitsInQuotes hQuote hInside []
      have hQuoted :
          Spans opening closing (quote :: (inside ++ [quote])) :=
        spans_of_readQuotedRaw hQuote hRead
      simpa using hQuoted.append ih
  | @nested inside rest _ _ ihInside ihRest =>
      have hInside := ihInside.enclose hOpening hClosing
      simpa using hInside.append ihRest

------------------------------------------------------------
-- Nothing Else Is
------------------------------------------------------------

/-
  The text closes as many brackets as are open, and fits
  between brackets before each of them and behind the last.
-/
def Closes (opening closing : Char) : (depth : Nat) → List Char → Prop
| 0, text => FitsBetween opening closing text
| depth + 1, text =>
    ∃ inside outside,
      FitsBetween opening closing inside ∧
        Closes opening closing depth outside ∧
          text = inside ++ closing :: outside

/- So does the text from within a quoted text, if one is open. -/
def ClosesFrom
    (opening closing : Char)
    (depth : Nat) : (quote : Option Char) → List Char → Prop
| none, text => Closes opening closing depth text
| some quote, text =>
    ∃ inside outside,
      FitsInQuotes quote inside ∧
        Closes opening closing depth outside ∧
          text = inside ++ quote :: outside

/- What may come first between brackets may come first here too. -/
theorem Closes.append_left
    (piece : List Char)
    (hPiece : ∀ rest, FitsBetween opening closing rest →
      FitsBetween opening closing (piece ++ rest))
    {depth : Nat}
    {text : List Char}
    (h : Closes opening closing depth text) :
    Closes opening closing depth (piece ++ text) := by
  cases depth with
  | zero => exact hPiece text h
  | succ depth =>
      rcases h with ⟨inside, outside, hInside, hOutside, rfl⟩
      exact ⟨piece ++ inside, outside, hPiece inside hInside, hOutside,
        by simp⟩

/- An escape goes on with what is open, be it a quoted text or not. -/
theorem ClosesFrom.escape
    {depth : Nat}
    {quote : Option Char}
    {text : List Char}
    (c : Char)
    (h : ClosesFrom opening closing depth quote text) :
    ClosesFrom opening closing depth quote ('\\' :: c :: text) := by
  cases quote with
  | none => exact Closes.append_left ['\\', c] (fun _ => .escape c) h
  | some quote =>
      rcases h with ⟨inside, outside, hInside, hOutside, rfl⟩
      exact ⟨'\\' :: c :: inside, outside, hInside.escape c, hOutside, rfl⟩

/-
  What is read up to the bracket that closes the outermost one
  closes all that are open.  The induction is on the reader;
  what it notes of quotes and of depths is what is left to be
  closed.
-/
theorem closesFrom_of_readBalanced?
    {depth : Nat}
    {quote : Option Char}
    {cs content rest : List Char}
    (h : readBalanced? opening closing depth quote cs =
      some (content, rest)) :
    ClosesFrom opening closing depth quote content := by
  fun_induction readBalanced? opening closing depth quote cs
    generalizing content with
  | case1 => simp at h
  | case2 => simp at h
  | case3 depth quote c cs ih =>
      rcases prepend_eq_some_iff.1 h with ⟨tail, hTail, rfl⟩
      rcases prepend_eq_some_iff.1 hTail with ⟨tail', hTail', rfl⟩
      exact (ih hTail').escape c
  | case4 depth q c cs hEnd hSlash ih =>
      rcases prepend_eq_some_iff.1 h with ⟨tail, hTail, rfl⟩
      have hPlain := ne_slash_of_not_escape hEnd hSlash
      have hRest := ih hTail
      by_cases hSame : c = q
      · rw [if_pos hSame] at hRest
        exact ⟨[], tail, .nil, hRest, by rw [hSame]; rfl⟩
      · rw [if_neg hSame] at hRest
        rcases hRest with ⟨inside, outside, hInside, hOutside, rfl⟩
        exact ⟨c :: inside, outside, .plain hPlain hSame hInside,
          hOutside, rfl⟩
  | case5 depth c cs hEnd hSlash hQuote ih =>
      rcases prepend_eq_some_iff.1 h with ⟨tail, hTail, rfl⟩
      rcases ih hTail with ⟨inside, outside, hInside, hOutside, rfl⟩
      have hWhole :
          Closes opening closing depth
            (c :: (inside ++ [c]) ++ outside) := by
        refine Closes.append_left _ (fun rest hRest => ?_) hOutside
        simpa using FitsBetween.quoted hQuote hInside hRest
      rwa [List.cons_append, List.append_assoc] at hWhole
  | case6 depth cs hEnd hSlash hQuote ih =>
      rcases prepend_eq_some_iff.1 h with ⟨tail, hTail, rfl⟩
      rcases ih hTail with ⟨inside, outside, hInside, hOutside, rfl⟩
      have hWhole :
          Closes opening closing depth
            (opening :: (inside ++ [closing]) ++ outside) := by
        refine Closes.append_left _ (fun rest hRest => ?_) hOutside
        simpa using FitsBetween.nested hInside hRest
      rwa [List.cons_append, List.append_assoc] at hWhole
  | case7 cs hEnd hSlash hQuote hOther =>
      cases h
      exact FitsBetween.nil
  | case8 cs hEnd hSlash hQuote hOther depth ih =>
      rcases prepend_eq_some_iff.1 h with ⟨tail, hTail, rfl⟩
      exact ⟨[], tail, .nil, ih hTail, rfl⟩
  | case9 depth c cs hEnd hSlash hQuote hOther hLast ih =>
      rcases prepend_eq_some_iff.1 h with ⟨tail, hTail, rfl⟩
      have hPlain : c ∉ ['\\', '"', '\'', opening, closing] := by
        have hMark := ne_slash_of_not_escape hEnd hSlash
        simp only [isQuote, Bool.or_eq_true, beq_iff_eq, not_or] at hQuote
        simp [hMark, hQuote, hOther, hLast]
      exact Closes.append_left [c] (fun _ => .plain hPlain) (ih hTail)

------------------------------------------------------------
-- The Two Descriptions
------------------------------------------------------------

include hOpening hClosing

/- Exactly the texts that fit between brackets are passed over. -/
theorem spans_iff_fitsBetween {text : List Char} :
    Spans opening closing text ↔ FitsBetween opening closing text := by
  constructor
  · intro hSpans
    have hRead := eq_of_beq (hSpans.isBalanced hClosing)
    exact closesFrom_of_readBalanced? hRead
  · exact FitsBetween.spans hOpening hClosing

/- The bracket that closes such a text is the first that can. -/
theorem fitsBetween_unique
    {text text' rest rest' : List Char}
    (hText : FitsBetween opening closing text)
    (hText' : FitsBetween opening closing text')
    (hSame : text ++ closing :: rest = text' ++ closing :: rest') :
    text = text' ∧ rest = rest' := by
  have hRead := readBalanced?_of_isBalanced
    ((hText.spans hOpening hClosing).isBalanced hClosing) rest
  have hRead' := readBalanced?_of_isBalanced
    ((hText'.spans hOpening hClosing).isBalanced hClosing) rest'
  rw [hSame, hRead', Option.some.injEq, Prod.mk.injEq] at hRead
  exact ⟨hRead.1.symm, hRead.2.symm⟩

end Brackets

------------------------------------------------------------
-- Reading
------------------------------------------------------------

namespace Scan

variable {opening closing : Char} {code : Code} {c : Cursor}

/- Two brackets come next, with a text that fits between them. -/
def BracketsAhead (opening closing : Char) (c : Cursor) : Prop :=
  ∃ text rest,
    FitsBetween opening closing text ∧
      c.rest = opening :: (text ++ closing :: rest)

/- A text that fits between the brackets is read up to the closing one. -/
theorem balanced_of_fitsBetween
    (hOpening : opening ∉ ['\\', '"', '\''])
    (hClosing : closing ∉ ['\\', '"', '\'', opening])
    {text rest : List Char}
    (hText : FitsBetween opening closing text)
    (hRest : c.rest = opening :: (text ++ closing :: rest)) :
    balanced opening closing code c =
      .ok ⟨c.offset + opening.utf8Size, text⟩
        ⟨c.offset + Text.byteLength (opening :: (text ++ [closing])),
          rest⟩ := by
  have hSplit :
      opening :: (text ++ [closing]) ++ rest =
        opening :: (text ++ closing :: rest) := by
    simp
  have hMoved :=
    Cursor.moveTo_append c.offset (opening :: (text ++ [closing])) rest
  rw [hSplit, ← hRest] at hMoved
  exact (balanced_eq_ok_iff hClosing).2
    ⟨hText.spans hOpening hClosing, hRest, rfl, hMoved.symm⟩

/- Nothing else is read. -/
theorem balanced_iff_bracketsAhead
    (hOpening : opening ∉ ['\\', '"', '\''])
    (hClosing : closing ∉ ['\\', '"', '\'', opening]) :
    (∃ part d, balanced opening closing code c = .ok part d) ↔
      BracketsAhead opening closing c := by
  constructor
  · rintro ⟨part, d, hRead⟩
    rcases (balanced_eq_ok_iff hClosing).1 hRead with ⟨hSpans, hRest, _⟩
    exact ⟨part.rest, d.rest,
      (spans_iff_fitsBetween hOpening hClosing).1 hSpans, hRest⟩
  · rintro ⟨text, rest, hText, hRest⟩
    exact ⟨_, _, balanced_of_fitsBetween hOpening hClosing hText hRest⟩

/- What is not read is at fault where the opening bracket should be. -/
theorem fault_of_not_balanced
    (h : ∀ part d, balanced opening closing code c ≠ .ok part d) :
    ∃ cause d,
      balanced opening closing code c = .error ⟨cause, c.offset⟩ d ∧
        cause.code =
          if c.peek? = some opening then code
          else .unexpectedCharacter := by
  unfold balanced at h ⊢
  unfold Cursor.peek?
  cases hRest : c.rest with
  | nil => exact ⟨_, _, rfl, by simp [Cause.code]⟩
  | cons b cs =>
      by_cases hSame : b = opening
      · cases hRead : readBalanced? opening closing 0 none cs with
        | none =>
            simp only [hSame, ↓reduceIte, hRead]
            exact ⟨_, _, rfl, by simp [Cause.code]⟩
        | some read => simp [hRest, hSame, hRead] at h
      · simp only [hSame, ↓reduceIte]
        exact ⟨_, _, rfl, by simp [Cause.code, hSame]⟩

/-
  Brackets are read exactly if two of them come next with a
  text that fits between them.  There is one such text only.
  It is read with the offset at which it stands, and the reader
  stops behind the closing bracket.  Else the fault is at the
  opening bracket, with the code that was given, or there is no
  opening bracket.
-/
theorem brackets_are_read_iff
    (hOpening : opening ∉ ['\\', '"', '\''])
    (hClosing : closing ∉ ['\\', '"', '\'', opening])
    (code : Code)
    (c : Cursor) :
    ((∃ part d, balanced opening closing code c = .ok part d) ↔
        BracketsAhead opening closing c) ∧
      (∀ text rest, FitsBetween opening closing text →
        c.rest = opening :: (text ++ closing :: rest) →
          (∀ text' rest', FitsBetween opening closing text' →
            c.rest = opening :: (text' ++ closing :: rest') →
              text' = text) ∧
            balanced opening closing code c =
              .ok ⟨c.offset + opening.utf8Size, text⟩
                ⟨c.offset +
                  Text.byteLength (opening :: (text ++ [closing])), rest⟩) ∧
      (¬ BracketsAhead opening closing c →
        ∃ cause d, balanced opening closing code c =
            .error ⟨cause, c.offset⟩ d ∧
          cause.code =
            if c.peek? = some opening then code
            else .unexpectedCharacter) := by
  refine ⟨balanced_iff_bracketsAhead hOpening hClosing, ?_, ?_⟩
  · intro text rest hText hRest
    refine ⟨?_, balanced_of_fitsBetween hOpening hClosing hText hRest⟩
    intro text' rest' hText' hRest'
    rw [hRest, List.cons.injEq] at hRest'
    exact (fitsBetween_unique hOpening hClosing hText' hText
      hRest'.2.symm).1
  · intro hNone
    refine fault_of_not_balanced fun part d hRead => hNone ?_
    exact (balanced_iff_bracketsAhead hOpening hClosing).1 ⟨part, d, hRead⟩

/-
  In `(x(')')\))y` the inner brackets hold one in quotes, and
  one behind a backslash follows them.  The one in `(\)` is
  behind a backslash too, so that none is left.
-/
theorem brackets_are_read_iff_nested :
    '(' ∉ ['\\', '"', '\''] ∧ ')' ∉ ['\\', '"', '\'', '('] ∧
      FitsBetween '(' ')' "x(')')\\)".toList ∧
        (∀ text, FitsBetween '(' ')' text → ∀ rest,
          "x(')')\\))y".toList = text ++ ')' :: rest →
            text = "x(')')\\)".toList) ∧
          balanced '(' ')' .unbalancedParenthesis
              ⟨4, "(x(')')\\))y".toList⟩ =
            .ok ⟨5, "x(')')\\)".toList⟩ ⟨14, ['y']⟩ ∧
            ¬ BracketsAhead '(' ')' ⟨2, "(\\)".toList⟩ ∧
              ∃ cause d,
                balanced '(' ')' .unbalancedParenthesis
                    ⟨2, "(\\)".toList⟩ =
                  .error ⟨cause, 2⟩ d ∧
                cause.code = .unbalancedParenthesis := by
  have hOpening : '(' ∉ ['\\', '"', '\''] := by decide
  have hClosing : ')' ∉ ['\\', '"', '\'', '('] := by decide
  have hQuoted : FitsInQuotes '\'' [')'] :=
    .plain (by decide) (by decide) .nil
  have hInner : FitsBetween '(' ')' ('\'' :: ([')'] ++ '\'' :: [])) :=
    .quoted rfl hQuoted .nil
  have hFits : FitsBetween '(' ')' "x(')')\\)".toList :=
    .plain (by decide) (.nested hInner (.escape ')' .nil))
  have hAll := brackets_are_read_iff hOpening hClosing
    .unbalancedParenthesis
  rcases (hAll ⟨4, "(x(')')\\))y".toList⟩).2.1 _ ['y'] hFits rfl with
    ⟨hOne, hRead⟩
  have hNone : ¬ BracketsAhead '(' ')' ⟨2, "(\\)".toList⟩ := by
    rw [← (hAll ⟨2, "(\\)".toList⟩).1]
    rintro ⟨part, d, hClosed⟩
    have hOpen :
        balanced '(' ')' .unbalancedParenthesis ⟨2, "(\\)".toList⟩ =
          .error ⟨.unclosed .unbalancedParenthesis '(' ')', 2⟩ ⟨5, []⟩ := by
      rfl
    rw [hOpen] at hClosed
    cases hClosed
  refine ⟨hOpening, hClosing, hFits, ?_, hRead, hNone,
    (hAll ⟨2, "(\\)".toList⟩).2.2 hNone⟩
  intro text hText rest hSplit
  exact hOne text rest hText (congrArg ('(' :: ·) hSplit)

end Scan

end TreeQuery
