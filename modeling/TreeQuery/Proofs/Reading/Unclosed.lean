import TreeQuery.Pattern.Standard
import TreeQuery.Proofs.Reading.Report
import TreeQuery.Query

/-
  Quotes that are not closed.

  A bracket whose text opens a quote and does not close it is
  not closed either, and is what gets reported.  Where the
  bracket is closed, so is every quoted text between it and the
  character that opens it.

  Key definitions include:
    * `LeavesOpen`

  Main statements:
    * `Scan.balanced_unclosed`
    * `Scan.quoted_of_attribute`
    * `Scan.code_of_readPart`
    * `Selector.quotes_end_alike`
-/

namespace TreeQuery

variable {E : Engine}

/-
  Behind the opening bracket and the text the bracket is still
  open, and no quote is.
-/
def LeavesOpen (opening closing : Char) (text : List Char) : Prop :=
  ∃ depth, ∀ rest,
    readBalanced? opening closing 0 none (text ++ rest) =
      prependText text (readBalanced? opening closing depth none rest)

/- A text that is passed over leaves the bracket open. -/
theorem Spans.leavesOpen
    {opening closing : Char}
    {text : List Char}
    (h : Spans opening closing text) :
    LeavesOpen opening closing text :=
  ⟨0, h 0⟩

namespace Scan

------------------------------------------------------------
-- Brackets
------------------------------------------------------------

section Unclosed

variable
  {quote : Char}
  (hQuote : isQuote quote = true)
  {cs : List Char}
  (hOpen : (readQuotedRaw quote cs).rest? = none)

include hQuote hOpen

/- A bracket is not closed behind a quote that is not. -/
theorem balanced_unclosed
    {opening closing : Char}
    {text : List Char}
    (hText : LeavesOpen opening closing text)
    {c : Cursor}
    (hCons : c.rest = opening :: (text ++ quote :: cs))
    (code : Code) :
    balanced opening closing code c =
      .error ⟨.unclosed code opening closing, c.offset⟩ c.toEnd := by
  rcases hText with ⟨depth, hText⟩
  have hNone :
      readBalanced? opening closing depth (some quote) cs = none := by
    rw [readBalanced?_quoted hQuote]
    cases hRead : readQuotedRaw quote cs with
    | closed content rest => simp [hRead, QuotedText.rest?] at hOpen
    | endsInside => rfl
    | endsInEscape => rfl
  have hWhole :
      readBalanced? opening closing 0 none (text ++ quote :: cs) = none := by
    rw [hText, readBalanced?_none (slash_ne_quote hQuote).symm,
      if_pos hQuote, hNone]
    rfl
  unfold balanced
  simp only [hCons, ↓reduceIte, hWhole]

/- So the attribute test is reported at its bracket. -/
theorem attributeTest_unclosed
    {text : List Char}
    (hText : LeavesOpen '[' ']' text)
    {c : Cursor}
    (hCons : c.rest = '[' :: (text ++ quote :: cs)) :
    attributeTest E c =
      .error ⟨.unclosed .unterminatedAttribute '[' ']', c.offset⟩
        c.toEnd :=
  bind_eq_error (balanced_unclosed hQuote hOpen hText hCons _)

/- And the argument is reported at its parenthesis. -/
theorem argument_unclosed
    {text : List Char}
    (hText : LeavesOpen '(' ')' text)
    {c : Cursor}
    (hCons : c.rest = '(' :: (text ++ quote :: cs))
    (name : String) :
    argument name c =
      .error ⟨.unclosed .unbalancedParenthesis '(' ')', c.offset⟩
        c.toEnd := by
  have hPeek : peek? c = .ok (some '(') c := by
    simp [peek?, Cursor.peek?, hCons]
  have hWhole :
      parenthesized name c =
        .error ⟨.unclosed .unbalancedParenthesis '(' ')', c.offset⟩
          c.toEnd := by
    rw [parenthesized, bind_eq_of_ok hPeek, if_pos rfl]
    exact balanced_unclosed hQuote hOpen hText hCons _
  exact bind_eq_error hWhole

end Unclosed

------------------------------------------------------------
-- Windows
------------------------------------------------------------

/- Behind the operator of a closed attribute test a quote is closed. -/
theorem quoted_of_attribute
    {code : Code}
    {c d part e f : Cursor}
    {name : String}
    {op : AttributeOperator}
    (hPart : balanced '[' ']' code c = .ok part d)
    (hName : attributeName part.skipBlanks = .ok name e)
    (hSign :
      operator? AttributeOperator.all e.skipBlanks = .ok (some op) f)
    {quote : Char}
    {cs : List Char}
    (hCons : f.skipBlanks.rest = quote :: cs)
    (hQuote : isQuote quote = true)
    (resolve : Bool) :
    ∃ value g, quoted resolve f.skipBlanks = .ok value g := by
  have hClosing : ']' ∉ ['\\', '"', '\'', '['] := by decide
  have hSquare : areBrackets '[' ']' = true := rfl
  have hBlanks :
      ∀ {c : Cursor}, Spans '[' ']' c.rest →
        Spans '[' ']' c.skipBlanks.rest :=
    fun {c} hSpans =>
      (strides_skipBlanks.passes hSquare c c.skipBlanks _ rfl).spans hSpans
  have hWhole := ((balanced_eq_ok_iff hClosing).1 hPart).1
  have hBehindName :=
    (strides_attributeName.passes hSquare _ _ _ hName).spans (hBlanks hWhole)
  have hBehindSign :=
    (strides_operator?.passes hSquare _ _ _ hSign).spans (hBlanks hBehindName)
  exact quoted_of_spans hQuote hCons hClosing (hBlanks hBehindSign) resolve

/- No window is refused for a quoted text without an end. -/
theorem code_of_readPart
    {part : Cursor}
    {fault : Fault}
    (h : readPart E part = .error fault) :
    fault.cause.code ≠ .unterminatedString :=
  (arisesIn_of_readPart h).closed

end Scan

------------------------------------------------------------
-- Whole Queries
------------------------------------------------------------

namespace Selector

theorem code_of_read_error
    {query : String}
    {e : ParseError}
    (h : read E query = .error e) :
    e.fault.cause.code ≠ .unterminatedString := by
  unfold read at h
  cases hPart : Scan.readPart E (.before 0 query.toList) with
  | ok s => simp [hPart] at h
  | error fault =>
      rw [hPart] at h
      cases h
      exact Scan.code_of_readPart hPart

/-
  Quoted texts end at the same quote, whether their escapes are
  resolved, they are kept as written, or they are passed over
  between brackets.  So a quote that is not closed leaves its
  bracket open, which is reported in its place; a value in
  quotes ends before the bracket that is found, also without
  the blanks around it; and no query is refused for a quoted
  text without an end.
-/
theorem quotes_end_alike (E : Engine) :
    (∀ (quote : Char) (cs : List Char), isQuote quote = true →
      (readQuoted quote cs).rest? = (readQuotedRaw quote cs).rest? ∧
        ∀ (opening closing : Char) (depth : Nat),
          readBalanced? opening closing depth (some quote) cs =
            match readQuotedRaw quote cs with
            | .closed content rest =>
                prependText (content ++ [quote])
                  (readBalanced? opening closing depth none rest)
            | _ => none) ∧
      (∀ (quote : Char) (cs : List Char) (c d : Cursor),
        isQuote quote = true → c.rest = quote :: cs →
          ((∃ value, Scan.quoted true c = .ok value d) ↔
            ∃ value, Scan.quoted false c = .ok value d)) ∧
      (∀ (quote : Char) (cs text : List Char) (c : Cursor),
        isQuote quote = true → (readQuotedRaw quote cs).rest? = none →
          (LeavesOpen '[' ']' text →
            c.rest = '[' :: (text ++ quote :: cs) →
              Scan.attributeTest E c =
                .error
                  ⟨.unclosed .unterminatedAttribute '[' ']', c.offset⟩
                  c.toEnd) ∧
          (LeavesOpen '(' ')' text →
            c.rest = '(' :: (text ++ quote :: cs) →
              ∀ name, Scan.argument name c =
                .error
                  ⟨.unclosed .unbalancedParenthesis '(' ')', c.offset⟩
                  c.toEnd)) ∧
      (∀ (c d part e f : Cursor) (name : String) (op : AttributeOperator)
          (quote : Char) (cs : List Char),
        Scan.balanced '[' ']' .unterminatedAttribute c = .ok part d →
        Scan.attributeName part.skipBlanks = .ok name e →
        Scan.operator? AttributeOperator.all e.skipBlanks =
          .ok (some op) f →
        f.skipBlanks.rest = quote :: cs → isQuote quote = true →
          ∀ resolve, ∃ value g,
            Scan.quoted resolve f.skipBlanks = .ok value g) ∧
      (∀ (name : String) (c d part : Cursor) (quote : Char)
          (cs : List Char),
        Scan.argument name c = .ok part d →
        part.rest = quote :: cs → isQuote quote = true →
          ∀ resolve, ∃ value e, Scan.quoted resolve part = .ok value e) ∧
      (∀ query e, read E query = .error e →
        e.fault.cause.code ≠ .unterminatedString) ∧
      (∀ query e, Query.read E query = .error (.malformed e) →
        e.fault.cause.code ≠ .unterminatedString) := by
  refine ⟨?_, ?_, ?_, ?_, ?_, ?_, ?_⟩
  · intro quote cs hQuote
    exact ⟨readQuoted_rest? hQuote cs, fun opening closing depth =>
      readBalanced?_quoted hQuote opening closing depth cs⟩
  · intro quote cs c d hQuote hCons
    rw [Scan.quoted_eq_ok_iff hQuote hCons,
      Scan.quoted_eq_ok_iff hQuote hCons]
  · intro quote cs text c hQuote hOpen
    refine ⟨?_, ?_⟩
    · intro hText hCons
      exact Scan.attributeTest_unclosed hQuote hOpen hText hCons
    · intro hText hCons name
      exact Scan.argument_unclosed hQuote hOpen hText hCons name
  · intro c d part e f name op quote cs hPart hName hSign hCons hQuote
    exact Scan.quoted_of_attribute hPart hName hSign hCons hQuote
  · intro name c d part quote cs hRead hCons hQuote
    exact Scan.quoted_of_argument hQuote hCons hRead
  · intro query e hRead
    exact code_of_read_error hRead
  · intro query e hRead
    unfold Query.read at hRead
    simp only at hRead
    split at hRead
    · cases hRead
    · split at hRead
      · cases hRead
      · next hMalformed =>
          cases hRead
          exact code_of_read_error hMalformed

/-
  In `"\22 a" b` the escaped quote closes nothing, `[b='c]` and
  `(it's)` are reported at their brackets, and `[b="]"]` and
  `( ")" )` are closed behind the brackets that they quote.
-/
theorem quotes_end_alike_escape :
    ((readQuoted '"' "\\22 a\" b".toList).rest? =
        (readQuotedRaw '"' "\\22 a\" b".toList).rest? ∧
      readBalanced? '[' ']' 0 (some '"') "\\22 a\" b]c".toList =
        prependText "\\22 a\"".toList
          (readBalanced? '[' ']' 0 none " b]c".toList)) ∧
      (∃ value, Scan.quoted false ⟨0, "'\\27'".toList⟩ =
        .ok value ⟨5, []⟩) ∧
      Scan.attributeTest .standard ⟨0, "[b='c]".toList⟩ =
        .error ⟨.unclosed .unterminatedAttribute '[' ']', 0⟩ ⟨6, []⟩ ∧
      Scan.argument "has" ⟨4, "(it's)".toList⟩ =
        .error ⟨.unclosed .unbalancedParenthesis '(' ')', 4⟩ ⟨10, []⟩ ∧
      (∃ value g, Scan.quoted true ⟨3, "\"]\"".toList⟩ = .ok value g) ∧
      (∃ value e, Scan.quoted false ⟨2, "\")\"".toList⟩ = .ok value e) ∧
      (Cause.unclosed .unterminatedAttribute '[' ']').code ≠
        .unterminatedString ∧
      (Cause.unclosed .unbalancedParenthesis '(' ')').code ≠
        .unterminatedString := by
  rcases quotes_end_alike .standard with
    ⟨hEnds, hQuoted, hUnclosed, hAttribute, hArgument, hRead, hQuery⟩
  have hText : LeavesOpen '[' ']' "b=".toList := by
    refine Spans.leavesOpen (spans_of_forall ?_)
    exact List.all_iff_forall_prop.1 (by decide)
  have hText' : LeavesOpen '(' ')' "it".toList := by
    refine Spans.leavesOpen (spans_of_forall ?_)
    exact List.all_iff_forall_prop.1 (by decide)
  have hOpen : (readQuotedRaw '\'' "c]".toList).rest? = none := by
    decide
  have hOpen' : (readQuotedRaw '\'' "s)".toList).rest? = none := by
    decide
  have hClosed :
      readQuotedRaw '"' "\\22 a\" b]c".toList =
        .closed "\\22 a".toList " b]c".toList := by
    decide
  have hResolved :
      Scan.quoted true ⟨0, "'\\27'".toList⟩ = .ok "'" ⟨5, []⟩ := by
    with_unfolding_all rfl
  have hPart :
      Scan.balanced '[' ']' .unterminatedAttribute
          ⟨0, "[b=\"]\"]".toList⟩ =
        .ok ⟨1, "b=\"]\"".toList⟩ ⟨7, []⟩ := by
    with_unfolding_all rfl
  have hName :
      Scan.attributeName (Cursor.skipBlanks ⟨1, "b=\"]\"".toList⟩) =
        .ok "b" ⟨2, "=\"]\"".toList⟩ := by
    with_unfolding_all rfl
  have hSign :
      Scan.operator? AttributeOperator.all
          (Cursor.skipBlanks ⟨2, "=\"]\"".toList⟩) =
        .ok (some (.compare .equal)) ⟨3, "\"]\"".toList⟩ := by
    with_unfolding_all rfl
  have hTrimmed :
      Scan.argument "has" ⟨0, "( \")\" )".toList⟩ =
        .ok ⟨2, "\")\"".toList⟩ ⟨7, []⟩ := by
    with_unfolding_all rfl
  have hFault :
      read .standard "[b='c]" =
        .error ⟨⟨.unclosed .unterminatedAttribute '[' ']', 0⟩,
          "[b='c]"⟩ := by
    with_unfolding_all rfl
  have hFault' :
      Query.read .standard ":is('c) " =
        .error (.malformed
          ⟨⟨.unclosed .unbalancedParenthesis '(' ')', 3⟩, ":is('c)"⟩) := by
    with_unfolding_all rfl
  refine ⟨⟨(hEnds '"' _ (by decide)).1, ?_⟩,
    (hQuoted _ _ _ _ (by decide) rfl).1 ⟨_, hResolved⟩,
    (hUnclosed '\'' _ _ _ (by decide) hOpen).1 hText rfl,
    (hUnclosed '\'' _ _ _ (by decide) hOpen').2 hText' rfl "has",
    hAttribute _ _ _ _ _ _ _ _ _ hPart hName hSign rfl (by decide) true,
    hArgument _ _ _ _ _ _ hTrimmed rfl (by decide) false,
    hRead _ _ hFault, hQuery _ _ hFault'⟩
  have hPassed :=
    (hEnds '"' "\\22 a\" b]c".toList (by decide)).2 '[' ']' 0
  rw [hClosed] at hPassed
  exact hPassed

end Selector

end TreeQuery
