import TreeQuery.Proofs.Nesting
import TreeQuery.Proofs.Reading.Argument
import TreeQuery.Proofs.Reading.Trail

/-
  Texts as attribute values and as arguments.

  In quotes an escape may name a character by its code, in bare
  texts a backslash only marks the next character.  A text that
  can be written both ways means the same where none of its
  escapes names a code and no blank is at its end: the count of
  hexadecimal digits tells the two meanings apart, since an
  escape never writes as many of them as it takes.

  Key definitions include:
    * `Text.IsBare`
    * `Text.namesCode`
    * `Text.Resembles`
    * `literal?`

  Main statements:
    * `exists_readQuoted`
    * `Text.Resembles.eq_iff`
    * `Text.IsBare.spans`
    * `Scan.value?_attributeValue`
    * `Selector.read_compare_of_literal?`
    * `Selector.read_containsText_of_literal?`
-/

namespace TreeQuery

variable {E : Engine}

------------------------------------------------------------
-- Dropped Backslashes
------------------------------------------------------------

namespace Text

/- The last backslash of the text marks no character. -/
def endsInSlash : List Char → Bool
| [] => false
| '\\' :: _ :: rest => endsInSlash rest
| ['\\'] => true
| _ :: rest => endsInSlash rest

/- An escape of the text names a character by its code. -/
def namesCode : List Char → Bool
| [] => false
| '\\' :: c :: rest => isHexDigit c || namesCode rest
| ['\\'] => false
| _ :: rest => namesCode rest

/-
  A text that can stand with and without quotes around it: it
  does not begin with a blank, has no quotes and no brackets,
  and its backslashes all mark a character.
-/
structure IsBare (text : List Char) : Prop where
  filled : text ≠ []
  starts : startsUnblank text = true
  plain : ∀ c ∈ text, c ∉ ['"', '\'', '(', ')', '[', ']']
  closed : endsInSlash text = false

variable {c : Char} {xs ys text : List Char}

theorem endsInSlash_cons
    (hSlash : c ≠ '\\')
    (cs : List Char) :
    endsInSlash (c :: cs) = endsInSlash cs := by
  rw [endsInSlash]
  · rintro _ _ rfl
    exact absurd rfl hSlash
  · exact fun hMark => absurd hMark hSlash

theorem namesCode_cons
    (hSlash : c ≠ '\\')
    (cs : List Char) :
    namesCode (c :: cs) = namesCode cs := by
  rw [namesCode]
  · rintro _ _ rfl
    exact absurd rfl hSlash
  · exact fun hMark => absurd hMark hSlash

theorem dropBackslashes_cons
    (hSlash : c ≠ '\\')
    (cs : List Char) :
    dropBackslashes (c :: cs) = c :: dropBackslashes cs := by
  rw [dropBackslashes]
  · rintro _ _ rfl
    exact absurd rfl hSlash
  · exact fun hMark => absurd hMark hSlash

/- Before a text nothing changes without a backslash. -/
theorem unmarked_append
    (hPlain : '\\' ∉ xs)
    (ys : List Char) :
    endsInSlash (xs ++ ys) = endsInSlash ys ∧
      dropBackslashes (xs ++ ys) = xs ++ dropBackslashes ys := by
  induction xs with
  | nil => exact ⟨rfl, rfl⟩
  | cons x xs ih =>
      rw [List.mem_cons, not_or] at hPlain
      rcases ih hPlain.2 with ⟨hEnds, hDrop⟩
      rw [List.cons_append, endsInSlash_cons (Ne.symm hPlain.1),
        dropBackslashes_cons (Ne.symm hPlain.1)]
      exact ⟨hEnds, by rw [hDrop, List.cons_append]⟩

/- Behind a text a backslash at its end is dropped all the same. -/
theorem dropBackslashes_append
    (hPlain : '\\' ∉ ys) :
    dropBackslashes (xs ++ ys) = dropBackslashes xs ++ ys := by
  have hSelf : ∀ {zs}, '\\' ∉ zs → dropBackslashes zs = zs := by
    intro zs hNone
    simpa [dropBackslashes] using (unmarked_append hNone []).2
  fun_induction dropBackslashes xs with
  | case1 => exact hSelf hPlain
  | case2 c rest ih =>
      rw [List.cons_append, List.cons_append, dropBackslashes, ih]
      rfl
  | case3 =>
      cases ys with
      | nil => rfl
      | cons y ys =>
          have hRest : '\\' ∉ ys := fun hMem => hPlain (by simp [hMem])
          rw [List.singleton_append, dropBackslashes, hSelf hRest]
          rfl
  | case4 c rest hMarked hLast ih =>
      have hSlash : c ≠ '\\' := ne_slash_of_not_escape hLast
        fun _ _ hMark hRest => hMarked _ _ hMark hRest
      rw [List.cons_append, dropBackslashes_cons hSlash, ih]
      rfl

/- So the blanks that trimming takes are kept without it. -/
theorem dropBackslashes_trimEnd (text : List Char) :
    dropBackslashes text =
      dropBackslashes (trimEnd text) ++ endBlanks text := by
  have hPlain : '\\' ∉ endBlanks text := by
    intro hMem
    exact ne_of_isBlank (areBlanks_endBlanks text _ hMem)
      (by simp : '\\' ∈ _) rfl
  rw [← dropBackslashes_append hPlain, trimEnd_append_endBlanks]

------------------------------------------------------------
-- Counts of Digits
------------------------------------------------------------

/- A digit alone names a character that is no digit. -/
theorem not_isHexDigit_namedChar
    {x : Char}
    (h : isHexDigit x = true) :
    isHexDigit (namedChar [x]) = false := by
  have hAll :
      (List.range 128).all fun n =>
        !isHexDigit (Char.ofNat n)
          || !isHexDigit (namedChar [Char.ofNat n]) := by
    decide +kernel
  have hCase :=
    forall_ascii
      (p := fun x => !isHexDigit x || !isHexDigit (namedChar [x])) hAll
      (ascii_of_isHexDigit h)
  simpa [h] using hCase

/- A code has more digits than the character that it names. -/
theorem countP_namedChar_lt
    {digits : List Char}
    (hSome : digits ≠ [])
    (hHex : ∀ y ∈ digits, isHexDigit y = true) :
    [namedChar digits].countP isHexDigit < digits.countP isHexDigit := by
  rw [List.countP_eq_length.2 hHex]
  match digits with
  | [] => exact absurd rfl hSome
  | [x] =>
      have hNone := not_isHexDigit_namedChar (hHex x (by simp))
      simp [hNone]
  | x :: y :: ys =>
      have hOne : [namedChar (x :: y :: ys)].countP isHexDigit ≤ 1 :=
        List.countP_le_length
      simp only [List.length_cons]
      omega

------------------------------------------------------------
-- Texts in Quotes
------------------------------------------------------------

/-
  What a quoted text means next to what the same text means
  bare: the same, or less digits if an escape names a code.
-/
def Resembles (content text : List Char) : Prop :=
  if namesCode text then
    content.countP isHexDigit < (dropBackslashes text).countP isHexDigit
  else
    content = dropBackslashes text

theorem Resembles.countP_le
    {content : List Char}
    (h : Resembles content text) :
    content.countP isHexDigit ≤
      (dropBackslashes text).countP isHexDigit := by
  unfold Resembles at h
  split at h
  · exact Nat.le_of_lt h
  · rw [h]

/- What stands for itself is the same in quotes. -/
theorem Resembles.cons
    {content rest : List Char}
    (h : Resembles content text)
    (hCode : namesCode rest = namesCode text)
    (hDrop : dropBackslashes rest = c :: dropBackslashes text) :
    Resembles (c :: content) rest := by
  unfold Resembles at h ⊢
  rw [hCode, hDrop]
  split at h
  · rw [if_pos ‹_›, List.countP_cons, List.countP_cons]
    omega
  · rw [if_neg ‹_›, h]

/- Only digits and blanks are taken with a code. -/
theorem not_mem_code
    {digits blanks : List Char}
    (hHex : ∀ y ∈ digits, isHexDigit y = true)
    (hBlanks : AreBlanks blanks)
    (hOther : isHexDigit c = false ∧ isBlank c = false) :
    c ∉ digits ++ blanks := by
  intro hMem
  rcases List.mem_append.1 hMem with hDigit | hBlank
  · simp [hHex c hDigit] at hOther
  · simp [hBlanks c hBlank] at hOther

/- A code and the blank behind it are passed over as one escape. -/
theorem escape_append
    {digits blanks : List Char}
    (hSome : digits ≠ [])
    (hHex : ∀ y ∈ digits, isHexDigit y = true)
    (hBlanks : AreBlanks blanks)
    (rest : List Char) :
    endsInSlash ('\\' :: (digits ++ (blanks ++ rest))) = endsInSlash rest ∧
      namesCode ('\\' :: (digits ++ (blanks ++ rest))) = true ∧
        dropBackslashes ('\\' :: (digits ++ (blanks ++ rest))) =
          digits ++ (blanks ++ dropBackslashes rest) := by
  cases digits with
  | nil => exact absurd rfl hSome
  | cons x xs =>
      have hTail : '\\' ∉ xs ++ blanks :=
        not_mem_code (fun y hMem => hHex y (List.mem_cons_of_mem x hMem))
          hBlanks (by decide)
      rcases unmarked_append hTail rest with ⟨hEnds, hDrop⟩
      rw [List.append_assoc] at hEnds hDrop
      refine ⟨hEnds, ?_, ?_⟩
      · simp [namesCode, hHex x (by simp)]
      · rw [List.cons_append, dropBackslashes, hDrop]
        simp

/- A code takes more digits than it leaves. -/
theorem Resembles.code
    {digits blanks content rest : List Char}
    (h : Resembles content rest)
    (hSome : digits ≠ [])
    (hHex : ∀ y ∈ digits, isHexDigit y = true)
    (hBlanks : AreBlanks blanks) :
    Resembles (namedChar digits :: content)
      ('\\' :: (digits ++ (blanks ++ rest))) := by
  rcases escape_append hSome hHex hBlanks rest with ⟨_, hCode, hDrop⟩
  have hLess := countP_namedChar_lt hSome hHex
  have hRest := h.countP_le
  rw [List.countP_singleton] at hLess
  rw [Resembles, if_pos hCode, hDrop, List.countP_append,
    List.countP_append, List.countP_cons]
  omega

/- What is taken before a quote is taken from the text before it. -/
theorem exists_rest_of_not_mem
    {taken after rest : List Char}
    (hNone : c ∉ taken)
    (hSplit : text ++ c :: rest = taken ++ after) :
    ∃ behind, text = taken ++ behind ∧ after = behind ++ c :: rest := by
  rcases List.append_eq_append_iff.1 hSplit with
    ⟨ys, hTaken, hRest⟩ | ⟨ys, hText, hAfter⟩
  · cases ys with
    | nil => exact ⟨[], by simpa using hTaken.symm, hRest.symm⟩
    | cons y ys =>
        cases hRest
        exact absurd (by simp [hTaken]) hNone
  · exact ⟨ys, hText, hAfter⟩

end Text

/-
  A text without quotes is closed by the quote behind it.  The
  induction is on the text as it is read in quotes, where an
  escape takes all digits of its code at once.
-/
theorem exists_readQuoted
    {text : List Char}
    (hPlain : '"' ∉ text)
    (hClosed : Text.endsInSlash text = false)
    (rest : List Char) :
    ∃ content, readQuoted '"' (text ++ '"' :: rest) = .closed content rest ∧
      Text.Resembles content text ∧ (content = [] → text = []) := by
  generalize hText : text ++ '"' :: rest = cs
  fun_induction readQuoted '"' cs generalizing text with
  | case1 => simp at hText
  | case2 cs =>
      cases text with
      | nil =>
          cases hText
          exact ⟨[], rfl, rfl, fun _ => rfl⟩
      | cons c text =>
          cases hText
          simp at hPlain
  | case3 cs hEscape hOther =>
      cases eq_nil_of_readEscape? hEscape
      cases text with
      | nil => simp at hText
      | cons c text => simp at hText
  | case4 cs d after hEscape _ hOther ih =>
      cases text with
      | nil => simp at hText
      | cons x text =>
          cases hText
          rw [List.mem_cons, not_or] at hPlain
          rcases cases_of_readEscape? hEscape with
            ⟨hHex, hSplit⟩ |
              ⟨digits, blanks, hSome, hHex, hBlanks, hSplit, rfl⟩
          · cases text with
            | nil => exact absurd hClosed (by decide)
            | cons y text =>
                cases hSplit
                rw [List.mem_cons, not_or] at hPlain
                rcases ih hPlain.2.2 hClosed rfl with
                  ⟨content, hRead, hSame, _⟩
                refine ⟨d :: content, by rw [hRead]; rfl, ?_, by simp⟩
                exact hSame.cons (by simp [Text.namesCode, hHex]) rfl
          · have hNone : '"' ∉ digits ++ blanks :=
              Text.not_mem_code hHex hBlanks (by decide)
            rw [← List.append_assoc] at hSplit
            rcases Text.exists_rest_of_not_mem hNone hSplit with
              ⟨behind, rfl, rfl⟩
            rw [List.append_assoc] at hPlain hClosed ⊢
            rw [(Text.escape_append hSome hHex hBlanks behind).1] at hClosed
            have hBehind : '"' ∉ behind := fun hMem =>
              hPlain.2 (by simp [hMem])
            rcases ih hBehind hClosed rfl with ⟨content, hRead, hSame, _⟩
            refine ⟨Text.namedChar digits :: content, by rw [hRead]; rfl,
              ?_, by simp⟩
            exact hSame.code hSome hHex hBlanks
  | case5 c cs hOther hSlash ih =>
      cases text with
      | nil =>
          cases hText
          exact absurd rfl hOther
      | cons x text =>
          cases hText
          rw [List.mem_cons, not_or] at hPlain
          rw [Text.endsInSlash_cons hSlash] at hClosed
          rcases ih hPlain.2 hClosed rfl with ⟨content, hRead, hSame, _⟩
          refine ⟨c :: content, by rw [hRead]; rfl, ?_, by simp⟩
          exact hSame.cons (Text.namesCode_cons hSlash text)
            (Text.dropBackslashes_cons hSlash text)

section Bare

variable {text : List Char} (hBare : Text.IsBare text)

include hBare

/- Between brackets a bare text is passed over. -/
theorem Text.IsBare.spans
    {opening closing : Char}
    (hBrackets : areBrackets opening closing = true) :
    Spans opening closing text := by
  have hPlain := hBare.plain
  have hClosed := hBare.closed
  clear hBare
  fun_induction Text.endsInSlash text with
  | case1 => exact spans_nil
  | case2 c rest ih =>
      have hRest := ih (fun d hMem => hPlain d (by simp [hMem])) hClosed
      exact (spans_escape c).append hRest
  | case3 => simp at hClosed
  | case4 c rest hMarked hLast ih =>
      have hSlash : c ≠ '\\' := ne_slash_of_not_escape hLast
        fun _ _ hMark hRest => hMarked _ _ hMark hRest
      have hOther : c ∉ specialChars := by
        have hSigns := hPlain c (by simp)
        simp only [specialChars, List.mem_cons, List.not_mem_nil, or_false,
          not_or] at hSigns ⊢
        exact ⟨hSlash, hSigns⟩
      have hRest := ih (fun d hMem => hPlain d (by simp [hMem])) hClosed
      exact (spans_singleton
        (not_special_of_areBrackets hBrackets hOther)).append hRest

theorem Text.IsBare.not_mem_quote : '"' ∉ text := fun hMem =>
  hBare.plain _ hMem (by simp)

/- So it is in quotes. -/
theorem Text.IsBare.spans_in_quotes
    {opening closing : Char} :
    Spans opening closing ('"' :: (text ++ ['"'])) := by
  have hQuote : isQuote '"' = true := by decide
  rcases exists_readQuoted hBare.not_mem_quote hBare.closed [] with
    ⟨content, hRead, _⟩
  have hRest := readQuoted_rest? hQuote (text ++ ['"'])
  rw [hRead] at hRest
  rcases QuotedText.rest?_eq_some_iff.1 hRest.symm with ⟨raw, hRaw⟩
  have hText : text = raw :=
    List.append_cancel_right (readQuotedRaw_split hRaw)
  rw [hText]
  exact spans_of_readQuotedRaw hQuote hRaw

/- A bare text is not taken for a quoted one. -/
theorem Text.IsBare.not_isQuote
    {c : Char}
    (hMem : c ∈ text) :
    isQuote c = false := by
  have hPlain := hBare.plain c hMem
  simp only [List.mem_cons, not_or] at hPlain
  simp [isQuote, hPlain.1, hPlain.2.1]

end Bare

------------------------------------------------------------
-- Values of Texts
------------------------------------------------------------

/- Bare and in quotes a text means the same without codes and blanks. -/
theorem Text.Resembles.eq_iff
    {content text : List Char}
    (h : Resembles content text) :
    dropBackslashes (trimEnd text) = content ↔
      namesCode text = false ∧ endBlanks text = [] := by
  have hDrop := dropBackslashes_trimEnd text
  have hBlanks : (endBlanks text).countP isHexDigit = 0 := by
    rw [List.countP_eq_zero]
    intro x hMem
    simp [not_isHexDigit_of_isBlank (areBlanks_endBlanks text x hMem)]
  unfold Resembles at h
  split at h
  · next hCode =>
      refine iff_of_false ?_ (by simp [hCode])
      rintro rfl
      rw [hDrop, List.countP_append, hBlanks] at h
      omega
  · next hCode =>
      rw [h, hDrop]
      simp [hCode]

/- What a text is read as, where it may be put in quotes. -/
def literal? : List Char → Option (List Char)
| [] => some []
| q :: cs =>
    if isQuote q then
      match readQuoted q cs with
      | .closed content [] => some content
      | _ => none
    else
      some (Text.dropBackslashes (Text.trimEnd (q :: cs)))

theorem literal?_quoted (s : String) :
    literal? (Text.quoted s).toList = some s.toList := by
  have hRead := readQuoted_escapeQuoted s.toList []
  have hQuote : isQuote '"' = true := by decide
  rw [Text.quoted, String.toList_ofList, List.cons_append, literal?,
    if_pos hQuote, hRead]

/- Without a quote at its start only backslashes are dropped. -/
theorem literal?_of_not_quote
    {text : List Char}
    (hBare : text.head?.any isQuote = false) :
    literal? text = some (Text.dropBackslashes (Text.trimEnd text)) := by
  cases text with
  | nil => rfl
  | cons q cs =>
      have hOther : ¬isQuote q = true := by simpa using hBare
      rw [literal?, if_neg hOther]

section Bare

variable {text : List Char} (hBare : Text.IsBare text)

include hBare

theorem Text.IsBare.exists_cons :
    ∃ x xs, text = x :: xs ∧ Text.isBlank x = false := by
  rcases List.exists_cons_of_ne_nil hBare.filled with ⟨x, xs, rfl⟩
  exact ⟨x, xs, rfl, by simpa [startsUnblank] using hBare.starts⟩

/- Only blanks at its end are trimmed. -/
theorem Text.IsBare.trim_eq :
    Text.trim text = Text.trimEnd text := by
  rcases hBare.exists_cons with ⟨x, xs, rfl, hUnblank⟩
  rw [Text.trim, Text.trimStart_of_unblank hUnblank]

theorem Text.IsBare.trim_ne_nil : Text.trim text ≠ [] := by
  rcases hBare.exists_cons with ⟨x, xs, rfl, hUnblank⟩
  intro hNil
  have hBlank := Text.trim_eq_nil_iff.1 hNil x (by simp)
  simp [hUnblank] at hBlank

/- What begins a bare text is no quote, with or without its blanks. -/
theorem Text.IsBare.head_not_quote
    {start : List Char}
    (hPrefix : start <+: text) :
    start.head?.any isQuote = false := by
  cases start with
  | nil => rfl
  | cons x xs =>
      simpa using hBare.not_isQuote (hPrefix.subset (by simp))

/- A bare text is read alike with and without its blanks. -/
theorem Text.IsBare.literal?_eq :
    literal? text = some (Text.dropBackslashes (Text.trimEnd text)) ∧
      literal? (Text.trim text) =
        some (Text.dropBackslashes (Text.trimEnd text)) := by
  have hTrim := Text.trimEnd_trim text
  rw [hBare.trim_eq] at hTrim ⊢
  refine ⟨literal?_of_not_quote (hBare.head_not_quote List.prefix_rfl), ?_⟩
  rw [literal?_of_not_quote
    (hBare.head_not_quote (Text.trimEnd_prefix text)), hTrim]

end Bare

namespace Scan

variable {text : List Char} {value : String}

/- A text that is read from quotes is all that they hold. -/
theorem quoted_of_literal?
    {q : Char}
    {cs : List Char}
    (h : literal? (q :: cs) = some value.toList)
    (hQuote : isQuote q = true)
    (o : Nat) :
    quoted true ⟨o, q :: cs⟩ =
      .ok value ((⟨o, q :: cs⟩ : Cursor).moveTo []) := by
  rw [literal?, if_pos hQuote] at h
  split at h
  · next content hRead =>
      have hValue : String.ofList content = value := by
        rw [Option.some.inj h, String.ofList_toList]
      rw [quoted_of_readQuoted hQuote hRead, hValue]
  · simp at h

/- Without quotes the blanks at its end are not part of it. -/
theorem eq_of_literal?
    (h : literal? text = some value.toList)
    (hBare : text.head?.any isQuote = false) :
    String.ofList (Text.dropBackslashes (Text.trimEnd text)) = value := by
  rw [literal?_of_not_quote hBare, Option.some.injEq] at h
  rw [h, String.ofList_toList]

/- An attribute value is what its text is read as. -/
theorem value?_attributeValue
    (h : literal? text = some value.toList)
    (c : Comparison)
    (o : Nat) :
    ∃ o', value? (attributeValue (.compare c)) ⟨o, text⟩ =
      some (value, ⟨o', []⟩) := by
  have hResolve :
      (AttributeOperator.compare c != .matchesPattern) = true := by
    simp
  refine ⟨((⟨o, text⟩ : Cursor).moveTo []).offset, ?_⟩
  rw [attributeValue, value?_bind, value?_peek?, Option.bind_some]
  simp only [hResolve]
  cases hQuote : text.head?.any isQuote with
  | false =>
      rw [if_neg (by simp), bareValue, value?_bind, value?_remainder,
        Option.bind_some]
      simp only [↓reduceIte, value?_pure, eq_of_literal? h hQuote]
      rfl
  | true =>
      cases text with
      | nil => simp at hQuote
      | cons q cs =>
          have hRead :
              value? (quoted true) ⟨o, q :: cs⟩ =
                some (value, (⟨o, q :: cs⟩ : Cursor).moveTo []) :=
            value?_eq_some_iff.2
              (quoted_of_literal? h (by simpa using hQuote) o)
          rw [if_pos rfl, quotedValue, value?_bind, hRead,
            Option.bind_some]
          simp [Cursor.moveTo]

/- So is an argument that is a text. -/
theorem writtenText?_of_literal?
    (h : literal? text = some value.toList)
    (hTrim : Text.trimEnd text = text)
    (o : Nat) :
    writtenText? true ⟨o, text⟩ = some value := by
  have hPeek : (⟨o, text⟩ : Cursor).peek? = text.head? := rfl
  rw [writtenText?, hPeek]
  cases hQuote : text.head?.any isQuote with
  | false =>
      have hBare := eq_of_literal? h hQuote
      rw [hTrim] at hBare
      rw [if_neg (by simp), bareText, if_pos rfl, hBare]
  | true =>
      cases text with
      | nil => simp at hQuote
      | cons q cs =>
          have hRead :
              value? (quoted true) ⟨o, q :: cs⟩ =
                some (value, (⟨o, q :: cs⟩ : Cursor).moveTo []) :=
            value?_eq_some_iff.2
              (quoted_of_literal? h (by simpa using hQuote) o)
          rw [if_pos rfl, quotedArgument, value?_bind, hRead,
            Option.bind_some]
          simp [Cursor.moveTo]

/- A needle is read from a text that is an argument. -/
theorem value?_part?_contains_of_literal?
    {written : List Char}
    (hSpans : Spans '(' ')' written)
    (hSome : Text.trim written ≠ [])
    (h : literal? (Text.trim written) = some value.toList)
    (hFilled :
      (Text.trim written).head?.any isQuote = true → value ≠ "")
    (nested : Cursor → Except Fault (Selector E))
    (source : TextSource)
    (o : Nat) :
    ∃ o', value? (part? nested [])
        ⟨o, ':' :: (("contains" ++ source.ending).toList ++
          ('(' :: written ++ [')']))⟩ =
      some (some (.containsText source (needle source value)),
        ⟨o', []⟩) := by
  have hKnown :
      pseudoClass? E (Text.asciiLowerString ("contains" ++ source.ending)) =
        some (.contains source) := by
    cases source <;> rfl
  rcases value?_part?_call nested hKnown [] written [] o with ⟨e, hRead⟩
  let c : Cursor := ⟨e, '(' :: written ++ [')']⟩
  have hArgument :
      argument (Text.asciiLowerString ("contains" ++ source.ending)) c =
        .ok ⟨(Cursor.skipBlanks ⟨e + '('.utf8Size, written⟩).offset,
          Text.trim written⟩ (c.moveTo []) :=
    argument_eq_ok_iff.2 ⟨written, hSpans, hSome, rfl, rfl, rfl⟩
  have hText :=
    textArgument_eq_ok_iff.2 ⟨_, hArgument, rfl,
      writtenText?_of_literal? h (Text.trimEnd_trim written) _, hFilled⟩
  refine ⟨(c.moveTo []).offset, ?_⟩
  rw [hRead, meaning, value?_bind, value?_eq_some_iff.2 hText,
    Option.bind_some]
  rfl

end Scan

------------------------------------------------------------
-- Queries
------------------------------------------------------------

namespace Selector

variable {written value : String}

/- A comparison is read from the text of its value. -/
theorem read_compare_of_literal?
    {name : String}
    {c : Comparison}
    (hSmall : IsSmallName name)
    (hName : isAttributeName name.toList = true)
    (hMeaningful : (.compare c value : AttributeTest E).IsMeaningful)
    (hSome : written ≠ "")
    (hStarts : startsUnblank written.toList = true)
    (hSpans : Spans '[' ']' written.toList)
    (h : literal? written.toList = some value.toList) :
    read E ("[" ++ name ++ c.sign ++ written ++ "]") =
      .ok (.attr name (.compare c value)) := by
  have hWritten : written.toList ≠ [] := by simpa using hSome
  rcases List.exists_cons_of_ne_nil hWritten with ⟨x, xs, hHead⟩
  have hUnblank : Text.isBlank x = false := by
    simpa [startsUnblank, hHead] using hStarts
  have hValue : ∀ o, ∃ o',
      Scan.value? (Scan.operatorAndValue E name)
          ⟨o, c.sign.toList ++ written.toList⟩ =
        some (.compare c value, ⟨o', []⟩) := by
    intro o
    rw [hHead] at h ⊢
    exact Scan.value?_operatorAndValue_of_value hMeaningful hUnblank
      (Scan.value?_attributeValue h c) name o
  rcases Scan.head_sign c with ⟨y, ys, hSign, hMem⟩
  have hTest : ∀ o, ∃ o',
      Scan.value? (Scan.namedTest E)
          ⟨o, name.toList ++ (c.sign.toList ++ written.toList)⟩ =
        some (.attr name (.compare c value), ⟨o', []⟩) := by
    rw [hSign] at hValue ⊢
    exact Scan.value?_namedTest_of_test hSmall hName hMem hValue
  have hInside :=
    (Scan.spans_attributeName hName).append
      ((Scan.spans_sign c).append hSpans)
  rcases Scan.value?_attributeTest_of_namedTest hName
    (hInside.isBalanced (by decide)) hTest [] 0 with ⟨e, hRead⟩
  have hText :
      ("[" ++ name ++ c.sign ++ written ++ "]").toList =
        '[' :: (name.toList ++ (c.sign.toList ++ written.toList) ++ [']']) := by
    simp
  refine read_of_part? hText (by decide) ⟨e, ?_⟩
  rw [Scan.value?_part?_bracket, ← List.cons_append, hRead]
  rfl

/- A needle is read from its text. -/
theorem read_containsText_of_literal?
    (hSpans : Spans '(' ')' written.toList)
    (hSome : Text.trim written.toList ≠ [])
    (h : literal? (Text.trim written.toList) = some value.toList)
    (hFilled :
      (Text.trim written.toList).head?.any isQuote = true → value ≠ "")
    (source : TextSource) :
    read E (":contains" ++ source.ending ++ "(" ++ written ++ ")") =
      .ok (.containsText source (Scan.needle source value)) := by
  have hText :
      (":contains" ++ source.ending ++ "(" ++ written ++ ")").toList =
        ':' :: (("contains" ++ source.ending).toList ++
          ('(' :: written.toList ++ [')'])) := by
    simp
  exact read_of_part? hText (by decide)
    (Scan.value?_part?_contains_of_literal? hSpans hSome h hFilled
      (Scan.readPart E) source 0)

end Selector

end TreeQuery
