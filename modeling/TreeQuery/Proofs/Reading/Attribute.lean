import TreeQuery.Proofs.Reading.Legible

/-
  Attribute tests that are read again from their text.

  A legible name and a test of its value are read between
  brackets as they were written.

  Main statements:
    * `Scan.value?_attributeName`
    * `Scan.value?_attributeTest`
    * `Scan.value?_attributeTest_start`
-/

namespace TreeQuery

variable {E : Engine}

namespace Scan

------------------------------------------------------------
-- Attribute Names
------------------------------------------------------------

theorem head_of_isName
    {text : List Char}
    (h : isName text = true) :
    ∃ x xs, text = x :: xs ∧ isIdentifierChar x = true := by
  cases text with
  | nil => simp [isName] at h
  | cons x xs =>
      simp only [isName, Bool.and_eq_true, List.all_cons] at h
      exact ⟨x, xs, rfl, h.2.1⟩

/- A colon and a name go on with a name. -/
theorem nameParts_colon
    {o : Nat}
    {x : Char}
    {xs : List Char}
    {part : String}
    {e : Cursor}
    (hChar : isIdentifierChar x = true)
    (hRead : identifier ⟨o + 1, x :: xs⟩ = .ok part e)
    (name : String) :
    nameParts name ⟨o, ':' :: x :: xs⟩ =
      nameParts (name ++ ":" ++ part) e := by
  have hAdvance :
      (⟨o, ':' :: x :: xs⟩ : Cursor).advance = ⟨o + 1, x :: xs⟩ :=
    rfl
  rw [nameParts]
  split
  · next y hPeek hNext =>
      cases hNext
      rw [if_pos hChar]
      split
      · next part' e' hPart =>
          rw [hAdvance, hRead] at hPart
          cases hPart
          rfl
      · next fault e' hPart =>
          rw [hAdvance, hRead] at hPart
          cases hPart
  · next hOther => exact absurd rfl (hOther x rfl)

/- Segments behind a name are read as parts of it. -/
theorem nameParts_segments
    {segments : List (List Char)}
    {rest : List Char}
    (hNames : ∀ segment ∈ segments, isName segment = true)
    (hRest : endsName rest = true)
    (hColon : rest.head? ≠ some ':')
    (name : String)
    (o : Nat) :
    ∃ o',
      nameParts name
          ⟨o, segments.flatMap (fun segment => ':' :: segment) ++ rest⟩ =
        .ok (name ++ String.ofList
          (segments.flatMap fun segment => ':' :: segment)) ⟨o', rest⟩ := by
  induction segments generalizing name o with
  | nil =>
      refine ⟨o, ?_⟩
      rw [nameParts]
      split
      · next x hPeek _ => exact absurd hPeek hColon
      · simp
  | cons segment segments ih =>
      have hName := hNames segment (by simp)
      rcases head_of_isName hName with ⟨x, xs, hSegment, hChar⟩
      have hAfter :
          endsName (segments.flatMap (fun segment => ':' :: segment) ++ rest) =
            true := by
        cases segments with
        | nil => exact hRest
        | cons next segments => rfl
      have hRead := identifier_append hName hAfter (o + 1)
      rcases ih (fun s hMem => hNames s (by simp [hMem]))
        (name ++ ":" ++ String.ofList segment)
        (o + 1 + Text.byteLength segment) with ⟨o', hParts⟩
      refine ⟨o', ?_⟩
      rw [List.flatMap_cons, List.append_assoc, List.cons_append]
      conv at hRead => lhs; rw [hSegment, List.cons_append]
      conv => lhs; rw [hSegment, List.cons_append]
      rw [nameParts_colon hChar hRead, hParts]
      congr 1
      apply String.toList_injective
      simp

theorem intercalate_eq_append_flatMap
    (separator : Char)
    (first : List Char)
    (segments : List (List Char)) :
    [separator].intercalate (first :: segments) =
      first ++ segments.flatMap fun segment => separator :: segment := by
  induction segments generalizing first with
  | nil => simp
  | cons next segments ih =>
      rw [List.intercalate_cons_cons, ih]
      simp

/- Attribute names begin like other names, and without a blank. -/
theorem head_of_isAttributeName
    {text : List Char}
    (h : isAttributeName text = true) :
    ∃ x xs, text = x :: xs ∧
      Text.isBlank x = false ∧ isIdentifierChar x = true := by
  simp only [isAttributeName, Bool.and_eq_true, List.all_eq_true] at h
  rcases h with ⟨hUnblank, hSegments⟩
  have hText : [':'].intercalate (text.splitOn ':') = text :=
    List.intercalate_splitOn ':'
  have hSome := List.splitOn_ne_nil ':' text
  generalize text.splitOn ':' = segments at hText hSegments hSome
  rcases List.exists_cons_of_ne_nil hSome with ⟨first, segments, rfl⟩
  rcases head_of_isName (hSegments first (by simp)) with
    ⟨x, xs, rfl, hChar⟩
  rw [intercalate_eq_append_flatMap, List.cons_append] at hText
  rw [← hText] at hUnblank
  exact ⟨x, _, hText.symm, by simpa [startsUnblank] using hUnblank, hChar⟩

/- A name with its segments is read up to what ends it. -/
theorem value?_attributeName
    {name : String}
    {rest : List Char}
    (hName : isAttributeName name.toList = true)
    (hRest : endsName rest = true)
    (hColon : rest.head? ≠ some ':')
    (o : Nat) :
    ∃ o', value? attributeName ⟨o, name.toList ++ rest⟩ =
      some (name, ⟨o', rest⟩) := by
  simp only [isAttributeName, Bool.and_eq_true, List.all_eq_true] at hName
  have hText :
      [':'].intercalate (name.toList.splitOn ':') = name.toList :=
    List.intercalate_splitOn ':'
  have hSegments := hName.2
  have hSome := List.splitOn_ne_nil ':' name.toList
  generalize name.toList.splitOn ':' = segments at hText hSegments hSome
  rcases List.exists_cons_of_ne_nil hSome with ⟨first, segments, rfl⟩
  rw [intercalate_eq_append_flatMap] at hText
  have hAfter :
      endsName (segments.flatMap (fun segment => ':' :: segment) ++ rest) =
        true := by
    cases segments with
    | nil => exact hRest
    | cons next segments => rfl
  have hFirst := identifier_append (hSegments first (by simp)) hAfter o
  have hLater : ∀ segment ∈ segments, isName segment = true :=
    fun segment hMem => hSegments segment (List.mem_cons_of_mem _ hMem)
  rcases nameParts_segments hLater hRest hColon
    (String.ofList first) (o + Text.byteLength first) with ⟨o', hParts⟩
  have hWhole :
      String.ofList first ++ String.ofList
        (segments.flatMap fun segment => ':' :: segment) = name := by
    apply String.toList_injective
    simpa using hText
  rw [hWhole] at hParts
  refine ⟨o', ?_⟩
  rw [← hText, List.append_assoc]
  exact value?_bind_eq_some_iff.2
    ⟨_, _, value?_eq_some_iff.2 hFirst, value?_eq_some_iff.2 hParts⟩

------------------------------------------------------------
-- Attribute Tests
------------------------------------------------------------

/- An operator that begins with another sign is passed over. -/
theorem value?_operator?_cons_of_ne
    {x y : Char}
    {ys : List Char}
    {op : AttributeOperator}
    (hSign : op.sign.toList = y :: ys)
    (hOther : x.toLower ≠ y.toLower)
    (ops : List AttributeOperator)
    (o : Nat)
    (rest : List Char) :
    value? (operator? (op :: ops)) ⟨o, x :: rest⟩ =
      value? (operator? ops) ⟨o, x :: rest⟩ := by
  rw [operator?, value?_bind, value?_chomp, hSign,
    Cursor.chomp?_of_ne hOther]
  rfl

/- The operator of a comparison is the one that is read. -/
theorem value?_operator?_sign
    (c : Comparison)
    (o : Nat)
    (rest : List Char) :
    value? (operator? AttributeOperator.all)
        ⟨o, c.sign.toList ++ rest⟩ =
      some (some (.compare c),
        ⟨o + Text.byteLength c.sign.toList, rest⟩) := by
  -- A cut after the last known character looks at what follows.
  cases rest with
  | nil => cases c <;> rfl
  | cons x xs =>
      cases c with
      | equal =>
          -- The other operators begin with other signs.
          have hSign :
              Comparison.equal.sign.toList ++ x :: xs = '=' :: x :: xs :=
            rfl
          rw [hSign, AttributeOperator.all,
            value?_operator?_cons_of_ne rfl (by decide),
            value?_operator?_cons_of_ne rfl (by decide),
            value?_operator?_cons_of_ne rfl (by decide),
            value?_operator?_cons_of_ne rfl (by decide),
            value?_operator?_cons_of_ne rfl (by decide)]
          rfl
      | notEqual => rfl
      | startsWith => rfl
      | endsWith => rfl
      | contains => rfl

theorem value?_operator?_pattern
    (o : Nat)
    (rest : List Char) :
    value? (operator? AttributeOperator.all) ⟨o, '~' :: '=' :: rest⟩ =
      some (some .matchesPattern, ⟨o + 2, rest⟩) := by
  cases rest with
  | nil => rfl
  | cons x xs => rfl

theorem value?_quotedValue
    (value : String)
    (o : Nat) :
    ∃ o', value? (quotedValue true) ⟨o, (Text.quoted value).toList⟩ =
      some (value, ⟨o', []⟩) := by
  rcases value?_quoted value [] o with ⟨o', hRead⟩
  rw [List.append_nil] at hRead
  refine ⟨o', ?_⟩
  simp [quotedValue, hRead]

/- A comparison is read where its value is, behind its sign. -/
theorem value?_operatorAndValue_of_value
    {c : Comparison}
    {value : String}
    {x : Char}
    {xs : List Char}
    (hMeaningful : (.compare c value : AttributeTest E).IsMeaningful)
    (hUnblank : Text.isBlank x = false)
    (hValue : ∀ o, ∃ o', value? (attributeValue (.compare c)) ⟨o, x :: xs⟩ =
      some (value, ⟨o', []⟩))
    (name : String)
    (o : Nat) :
    ∃ o', value? (operatorAndValue E name) ⟨o, c.sign.toList ++ x :: xs⟩ =
      some (.compare c value, ⟨o', []⟩) := by
  have hKept :
      (value.isEmpty && !(AttributeOperator.compare c).allowsEmpty) =
        false := by
    by_cases hEmpty : value = ""
    · simp [hMeaningful hEmpty]
    · simp [hEmpty]
  rcases hValue (o + Text.byteLength c.sign.toList) with ⟨o', hRead⟩
  refine ⟨o', ?_⟩
  rw [operatorAndValue, value?_bind, value?_operator?_sign,
    Option.bind_some]
  simp only [value?_bind, value?_skipBlanks, value?_offset,
    Cursor.skipBlanks_cons_of_not hUnblank, Option.bind_some, hRead]
  simp [hKept, valueTest]

/- A comparison with a value is read again. -/
theorem value?_operatorAndValue_compare
    {c : Comparison}
    {value : String}
    (hMeaningful : (.compare c value : AttributeTest E).IsMeaningful)
    (name : String)
    (o : Nat) :
    ∃ o', value? (operatorAndValue E name)
        ⟨o, (.compare c value : AttributeTest E).text.toList⟩ =
      some (.compare c value, ⟨o', []⟩) := by
  have hQuoted :
      '"' :: (Text.escapeQuoted value.toList ++ ['"']) =
        (Text.quoted value).toList := by
    simp [Text.quoted]
  have hQuote : isQuote '"' = true := by decide
  have hResolve :
      (AttributeOperator.compare c != .matchesPattern) = true := by
    simp
  have hValue :
      ∀ o, ∃ o', value? (attributeValue (.compare c))
          ⟨o, '"' :: (Text.escapeQuoted value.toList ++ ['"'])⟩ =
        some (value, ⟨o', []⟩) := by
    intro o
    rcases value?_quotedValue value o with ⟨o', hRead⟩
    refine ⟨o', ?_⟩
    rw [attributeValue, value?_bind, value?_peek?, Option.bind_some]
    simp only [List.head?_cons, Option.any_some, hQuote, ↓reduceIte,
      hResolve]
    rw [hQuoted, hRead]
  rw [AttributeTest.text, String.toList_append, ← hQuoted]
  exact value?_operatorAndValue_of_value hMeaningful (by decide) hValue
    name o

/- A pattern as it is written is read again. -/
theorem value?_operatorAndValue_pattern
    {p : Pattern E}
    (hMeaningful : (AttributeTest.matchesPattern p).IsMeaningful)
    (hLegible : isPatternText '[' ']' p.source.toList = true)
    (name : String)
    (o : Nat) :
    ∃ o', value? (operatorAndValue E name)
        ⟨o, (AttributeTest.matchesPattern p).text.toList⟩ =
      some (.matchesPattern p, ⟨o', []⟩) := by
  simp only [isPatternText, Bool.and_eq_true, Bool.not_eq_true',
    beq_iff_eq] at hLegible
  rcases hLegible with ⟨⟨_, hTrim⟩, hNoQuote⟩
  have hSome : p.source.toList ≠ [] := by
    intro hNil
    exact hMeaningful.1 (by simpa using hNil)
  rcases Text.trimEnd_of_trim hTrim hSome with ⟨hEnd, x, xs, hHead, hUnblank⟩
  have hText :
      (AttributeTest.matchesPattern p).text.toList =
        '~' :: '=' :: x :: xs := by
    simp [AttributeTest.text, hHead]
  have hQuote : isQuote x = false := by
    simpa [hHead] using hNoQuote
  have hResolve :
      (AttributeOperator.matchesPattern != .matchesPattern) = false := by
    simp
  have hEmpty : p.source.isEmpty = false := by
    simpa using hMeaningful.1
  have hCase := value?_pattern p (o + 2)
  rw [hMeaningful.2] at hCase
  refine ⟨((⟨o + 2, x :: xs⟩ : Cursor).toEnd).offset, ?_⟩
  rw [hText, operatorAndValue, value?_bind, value?_operator?_pattern,
    Option.bind_some]
  simp only [value?_bind, value?_skipBlanks, value?_offset,
    Cursor.skipBlanks_cons_of_not hUnblank, Option.bind_some]
  rw [attributeValue, value?_bind, value?_peek?, Option.bind_some]
  simp only [List.head?_cons, Option.any_some, hQuote, hResolve,
    Bool.false_eq_true, ↓reduceIte]
  rw [bareValue, value?_bind, value?_remainder, Option.bind_some]
  simp only [Bool.false_eq_true, ↓reduceIte, value?_pure,
    Option.bind_some]
  rw [← hHead, hEnd, String.ofList_toList, hEmpty]
  simp only [Bool.false_and, Bool.false_eq_true, ↓reduceIte, valueTest,
    value?_map]
  rw [hCase]
  rfl

/- An operator and a value are read again. -/
theorem value?_operatorAndValue
    {test : AttributeTest E}
    (hAsks : test ≠ .present)
    (hMeaningful : test.IsMeaningful)
    (hLegible : test.isLegible = true)
    (name : String)
    (o : Nat) :
    ∃ o', value? (operatorAndValue E name) ⟨o, test.text.toList⟩ =
      some (test, ⟨o', []⟩) := by
  cases test with
  | present => exact absurd rfl hAsks
  | compare c value =>
      exact value?_operatorAndValue_compare hMeaningful name o
  | matchesPattern p =>
      exact value?_operatorAndValue_pattern hMeaningful hLegible name o

/- A comparison stands out from the name before it. -/
theorem head_sign (c : Comparison) :
    ∃ x xs, c.sign.toList = x :: xs ∧
      x ∈ ['=', '!', '^', '$', '*', '~'] := by
  cases c with
  | equal => exact ⟨'=', _, rfl, by simp⟩
  | notEqual => exact ⟨'!', _, rfl, by simp⟩
  | startsWith => exact ⟨'^', _, rfl, by simp⟩
  | endsWith => exact ⟨'$', _, rfl, by simp⟩
  | contains => exact ⟨'*', _, rfl, by simp⟩

/- So does every test that asks for a value. -/
theorem head_attributeTest
    {test : AttributeTest E}
    (hAsks : test ≠ .present) :
    ∃ x xs, test.text.toList = x :: xs ∧
      x ∈ ['=', '!', '^', '$', '*', '~'] := by
  cases test with
  | present => exact absurd rfl hAsks
  | compare c value =>
      rcases head_sign c with ⟨x, xs, hSign, hMem⟩
      rw [AttributeTest.text, String.toList_append, hSign]
      exact ⟨x, _, rfl, hMem⟩
  | matchesPattern p =>
      rw [AttributeTest.text, String.toList_append]
      exact ⟨'~', _, rfl, by simp⟩

/- A name and a test are read where the test is, behind the name. -/
theorem value?_namedTest_of_test
    {name : String}
    {test : AttributeTest E}
    {x : Char}
    {xs : List Char}
    (hSmall : IsSmallName name)
    (hName : isAttributeName name.toList = true)
    (hSign : x ∈ ['=', '!', '^', '$', '*', '~'])
    (hTest : ∀ o, ∃ o', value? (operatorAndValue E name) ⟨o, x :: xs⟩ =
      some (test, ⟨o', []⟩))
    (o : Nat) :
    ∃ o', value? (namedTest E) ⟨o, name.toList ++ x :: xs⟩ =
      some (.attr name test, ⟨o', []⟩) := by
  have hSigns :
      ∀ x ∈ ['=', '!', '^', '$', '*', '~'],
        endsName [x] = true ∧ x ≠ ':' ∧ Text.isBlank x = false :=
    List.all_iff_forall_prop.1 (by decide)
  rcases hSigns x hSign with ⟨hEnds, hColon, hUnblank⟩
  have hEndsName : endsName (x :: xs) = true := hEnds
  rcases value?_attributeName hName hEndsName (by simpa using hColon) o
    with ⟨e, hRead⟩
  rcases hTest e with ⟨o', hValue⟩
  refine ⟨o', ?_⟩
  rw [namedTest, value?_bind, hRead, Option.bind_some]
  simp only [value?_bind, value?_skipBlanks,
    Cursor.skipBlanks_cons_of_not hUnblank, Option.bind_some,
    value?_isAtEnd, List.isEmpty_cons, Bool.false_eq_true, ↓reduceIte]
  rw [hValue]
  simp [Selector.ofAttribute, hSmall.2]

/- A name and a test of its value are read again. -/
theorem value?_namedTest
    {name : String}
    {test : AttributeTest E}
    (hSmall : IsSmallName name)
    (hMeaningful : test.IsMeaningful)
    (hName : isAttributeName name.toList = true)
    (hLegible : test.isLegible = true)
    (o : Nat) :
    ∃ o', value? (namedTest E) ⟨o, name.toList ++ test.text.toList⟩ =
      some (.attr name test, ⟨o', []⟩) := by
  by_cases hAsks : test = .present
  · subst hAsks
    have hEnds : endsName [] = true := rfl
    rcases value?_attributeName hName hEnds (by simp) o with ⟨e, hRead⟩
    refine ⟨e, ?_⟩
    rw [AttributeTest.text, String.toList_empty, namedTest, value?_bind,
      hRead, Option.bind_some]
    simp [Selector.ofAttribute, hSmall.2]
  · rcases head_attributeTest hAsks with ⟨x, xs, hText, hMem⟩
    rw [hText]
    refine value?_namedTest_of_test hSmall hName hMem (fun e => ?_) o
    rw [← hText]
    exact value?_operatorAndValue hAsks hMeaningful hLegible name e

/- No character of a name means anything to square brackets. -/
theorem not_bracket_of_isName
    {text : List Char}
    (hName : isName text = true)
    {c : Char}
    (hMem : c ∈ text) :
    c ∉ ['\\', '"', '\'', '[', ']'] := by
  simp only [isName, Bool.and_eq_true, List.all_eq_true] at hName
  have hPlain := not_special_of_isIdentifierChar (hName.2 c hMem)
  simp only [List.mem_cons, List.not_mem_nil, or_false, not_or]
    at hPlain
  simp [hPlain]

/- Square brackets pass over the name of an attribute. -/
theorem spans_attributeName
    {name : String}
    (hName : isAttributeName name.toList = true) :
    Spans '[' ']' name.toList := by
  apply spans_of_forall
  intro c hMem
  simp only [isAttributeName, Bool.and_eq_true, List.all_eq_true] at hName
  rcases mem_of_splitOn ':' hMem with hColon | ⟨segment, hSegment, hIn⟩
  · rw [hColon]
    decide
  · exact not_bracket_of_isName (hName.2 segment hSegment) hIn

theorem spans_sign (c : Comparison) : Spans '[' ']' c.sign.toList := by
  apply spans_of_forall
  cases c <;> exact List.all_iff_forall_prop.1 (by decide)

/- The text between the brackets closes the brackets it opens. -/
theorem isBalanced_attribute
    {name : String}
    {test : AttributeTest E}
    (hName : isAttributeName name.toList = true)
    (hLegible : test.isLegible = true) :
    isBalanced '[' ']' (name.toList ++ test.text.toList) = true := by
  have hNameSpans := spans_attributeName hName
  cases test with
  | present =>
      rw [AttributeTest.text, String.toList_empty, List.append_nil]
      exact hNameSpans.isBalanced (by decide)
  | compare c value =>
      have hTest := (spans_sign c).append (spans_quoted value)
      rw [AttributeTest.text, String.toList_append]
      exact (hNameSpans.append hTest).isBalanced (by decide)
  | matchesPattern p =>
      have hSign : Spans '[' ']' "~=".toList :=
        spans_of_forall (List.all_iff_forall_prop.1 (by decide))
      simp only [AttributeTest.isLegible, isPatternText,
        Bool.and_eq_true] at hLegible
      rw [AttributeTest.text, String.toList_append, ← List.append_assoc]
      exact (hNameSpans.append hSign).isBalanced_append hLegible.1.1

/- Without a caret a named test stands between the brackets. -/
theorem value?_bracketed_named
    {x : Char}
    (hUnblank : Text.isBlank x = false)
    (hCaret : x ≠ '^')
    (xs : List Char)
    (o : Nat) :
    value? (bracketed E) ⟨o, x :: xs⟩ =
      value? (namedTest E) ⟨o, x :: xs⟩ := by
  have hCaretText : "^".toList = ['^'] := rfl
  have hChomp := value?_chomp_sign hCaretText (by simp) o (x :: xs)
  simp only [hCaret, ↓reduceIte] at hChomp
  rw [bracketed, value?_bind, value?_skipBlanks,
    Cursor.skipBlanks_cons_of_not hUnblank, Option.bind_some]
  simp only [value?_bind, hChomp]
  rfl

/- With a caret the start of a name does. -/
theorem value?_bracketed_start
    {start : String}
    (hName : isName start.toList = true)
    (hSmall : IsSmallName start)
    (o : Nat) :
    ∃ o', value? (bracketed E) ⟨o, '^' :: start.toList⟩ =
      some (.attrStarting start, ⟨o', []⟩) := by
  have hUnblank : Text.isBlank '^' = false := by decide
  have hCaretText : "^".toList = ['^'] := rfl
  have hEnds : endsName [] = true := rfl
  have hChomp :=
    value?_chomp_sign hCaretText (by simp) o ('^' :: start.toList)
  have hRead := value?_identifier hName hEnds (o + 1)
  rw [List.append_nil] at hRead
  refine ⟨o + 1 + Text.byteLength start.toList, ?_⟩
  rw [bracketed, value?_bind, value?_skipBlanks,
    Cursor.skipBlanks_cons_of_not hUnblank, Option.bind_some]
  simp only [value?_bind, hChomp]
  simp [startTest, hRead, hSmall.2]

/- A test is read between brackets where it is read alone. -/
theorem value?_attributeTest_of_namedTest
    {name : String}
    {s : Selector E}
    {text : List Char}
    (hName : isAttributeName name.toList = true)
    (hBalanced : isBalanced '[' ']' (name.toList ++ text) = true)
    (hTest : ∀ o, ∃ o', value? (namedTest E) ⟨o, name.toList ++ text⟩ =
      some (s, ⟨o', []⟩))
    (rest : List Char)
    (o : Nat) :
    ∃ o', value? (attributeTest E)
        ⟨o, '[' :: (name.toList ++ text) ++ ']' :: rest⟩ =
      some (s, ⟨o', rest⟩) := by
  rcases value?_balanced hBalanced .unterminatedAttribute rest o with
    ⟨o', hPart⟩
  rcases hTest (o + '['.utf8Size) with ⟨e, hRead⟩
  rcases head_of_isAttributeName hName with ⟨x, xs, hFirst, hUnblank, hChar⟩
  have hCaret : x ≠ '^' := by
    rintro rfl
    revert hChar
    decide
  refine ⟨o', ?_⟩
  rw [attributeTest, value?_bind, hPart, Option.bind_some]
  rw [hFirst, List.cons_append] at hRead ⊢
  simp only [value?_within]
  rw [value?_bracketed_named hUnblank hCaret, hRead]
  rfl

/- An attribute test is read again. -/
theorem value?_attributeTest
    {name : String}
    {test : AttributeTest E}
    (hSmall : IsSmallName name)
    (hMeaningful : test.IsMeaningful)
    (hName : isAttributeName name.toList = true)
    (hLegible : test.isLegible = true)
    (rest : List Char)
    (o : Nat) :
    ∃ o', value? (attributeTest E)
        ⟨o, (Selector.attr name test).text.toList ++ rest⟩ =
      some (.attr name test, ⟨o', rest⟩) := by
  have hText :
      (Selector.attr name test).text.toList ++ rest =
        '[' :: (name.toList ++ test.text.toList) ++ ']' :: rest := by
    simp [Selector.text]
  rw [hText]
  exact value?_attributeTest_of_namedTest hName
    (isBalanced_attribute hName hLegible)
    (value?_namedTest hSmall hMeaningful hName hLegible) rest o

/- So is a test for the start of a name. -/
theorem value?_attributeTest_start
    {start : String}
    (hName : isName start.toList = true)
    (hSmall : IsSmallName start)
    (rest : List Char)
    (o : Nat) :
    ∃ o', value? (attributeTest E)
        ⟨o, (.attrStarting start : Selector E).text.toList ++ rest⟩ =
      some (.attrStarting start, ⟨o', rest⟩) := by
  have hText :
      (.attrStarting start : Selector E).text.toList ++ rest =
        '[' :: ('^' :: start.toList) ++ ']' :: rest := by
    simp [Selector.text]
  have hSpans : Spans '[' ']' ('^' :: start.toList) := by
    have hCaret : Spans '[' ']' ['^'] := spans_singleton (by decide)
    apply hCaret.append
    apply spans_of_forall
    intro c hMem
    exact not_bracket_of_isName hName hMem
  rcases value?_balanced (hSpans.isBalanced (by decide))
    .unterminatedAttribute rest o with ⟨o', hPart⟩
  rcases value?_bracketed_start hName hSmall (o + '['.utf8Size) with
    ⟨e, hTest⟩
  refine ⟨o', ?_⟩
  rw [hText, attributeTest, value?_bind, hPart, Option.bind_some]
  simp only [value?_within]
  rw [hTest]
  rfl

end Scan

end TreeQuery
