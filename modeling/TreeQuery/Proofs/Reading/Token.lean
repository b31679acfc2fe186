import TreeQuery.Proofs.Reading.Value
import TreeQuery.Proofs.Text.Ascii

/-
  Names, quoted texts and bracketed texts that are known.

  A name of identifier characters is read up to the character
  that ends it, a quoted text up to the quote that it was put
  in, and a bracketed text up to its bracket if it is passed
  over between brackets.

  Key definitions include:
    * `isName`
    * `endsName`
    * `WritesName`
    * `Spans`
    * `isBalanced`

  Main statements:
    * `Spans.isBalanced`
    * `spans_of_isBalanced`
    * `Scan.value?_identifier`
    * `Scan.quoted_quoted`
    * `Scan.value?_balanced`
-/

namespace TreeQuery

------------------------------------------------------------
-- Names
------------------------------------------------------------

/- A text can stand as a name without escapes. -/
def isName (text : List Char) : Bool :=
  !text.isEmpty && text.all isIdentifierChar

/- A name before the text ends there. -/
def endsName : List Char → Bool
| [] => true
| x :: _ => !isIdentifierChar x && x != '\\'

/- ASCII characters of names are letters, digits and two signs. -/
theorem not_special_of_isIdentifierChar
    {c : Char}
    (h : isIdentifierChar c = true) :
    c ∉ ['\\', '"', '\'', '(', ')', '[', ']', '#', '.', ':', '*',
      '|', ',', '>', '+', '~', '^', '$', '!', '=', ' '] := by
  intro hMem
  have hAll :
      ['\\', '"', '\'', '(', ')', '[', ']', '#', '.', ':', '*',
        '|', ',', '>', '+', '~', '^', '$', '!', '=', ' '].all
          fun c => !isIdentifierChar c := by
    decide
  have hNone := List.all_eq_true.1 hAll c hMem
  simp [h] at hNone

/- A name stays one in small letters, and was one before. -/
theorem isIdentifierChar_toLower (c : Char) :
    isIdentifierChar c.toLower = isIdentifierChar c := by
  by_cases hAscii : c.toNat < 128
  · have hAll :
        (List.range 128).all fun n =>
          isIdentifierChar (Char.ofNat n).toLower ==
            isIdentifierChar (Char.ofNat n) := by
      decide +kernel
    have hSame :=
      Text.forall_ascii
        (p := fun c => isIdentifierChar c.toLower == isIdentifierChar c)
        hAll hAscii
    exact eq_of_beq hSame
  · rw [Text.toLower_of_not_ascii hAscii]

theorem isName_asciiLower (text : List Char) :
    isName (Text.asciiLower text) = isName text := by
  simp [isName, Text.asciiLower, List.all_map, Function.comp_def,
    isIdentifierChar_toLower]

/- A character of names is read as it is. -/
theorem readIdentifier?_cons
    {c : Char}
    (h : isIdentifierChar c = true)
    (cs : List Char) :
    readIdentifier? (c :: cs) = prepend c (readIdentifier? cs) := by
  have hPlain := not_special_of_isIdentifierChar h
  rw [readIdentifier?.eq_3 _ _ (by
    rintro rfl
    exact absurd hPlain (by simp)), if_pos h]

/- An escape is read as the character that it stands for. -/
theorem readIdentifier?_escape
    {d : Char}
    {cs behind : List Char}
    (h : Text.readEscape? cs = some (d, behind)) :
    readIdentifier? ('\\' :: cs) = prepend d (readIdentifier? behind) := by
  rw [readIdentifier?]
  split
  · next hNone => simp [h] at hNone
  · next hSome =>
      rw [h, Option.some.injEq, Prod.mk.injEq] at hSome
      rw [hSome.1, hSome.2]

/- A name is read up to the character that ends it. -/
theorem readIdentifier?_append
    {name rest : List Char}
    (hChars : ∀ c ∈ name, isIdentifierChar c = true)
    (hRest : endsName rest = true) :
    readIdentifier? (name ++ rest) = some (name, rest) := by
  induction name with
  | nil =>
      cases rest with
      | nil => rw [List.nil_append, readIdentifier?]
      | cons x xs =>
          simp only [endsName, Bool.and_eq_true, Bool.not_eq_true',
            bne_iff_ne] at hRest
          rw [List.nil_append, readIdentifier?.eq_3 _ _ (by
            rintro rfl
            exact absurd rfl hRest.2)]
          rw [if_neg (by simp [hRest.1])]
  | cons c name ih =>
      have hTail := ih fun d hMem => hChars d (by simp [hMem])
      rw [List.cons_append, readIdentifier?_cons (hChars c (by simp)), hTail]
      rfl

/- However a text goes on behind it, a name is read from it. -/
def WritesName (text name : List Char) : Prop :=
  name ≠ [] ∧
    ∀ rest, endsName rest = true →
      readIdentifier? (text ++ rest) = some (name, rest)

/- A name without escapes is written as it is. -/
theorem writesName_of_isName
    {name : List Char}
    (h : isName name = true) :
    WritesName name name := by
  simp only [isName, Bool.and_eq_true, Bool.not_eq_true',
    List.isEmpty_eq_false_iff, List.all_eq_true] at h
  exact ⟨h.1, fun rest hRest => readIdentifier?_append h.2 hRest⟩

/- What writes a name begins with one of its characters or an escape. -/
theorem WritesName.exists_cons
    {text name : List Char}
    (h : WritesName text name) :
    ∃ x xs, text = x :: xs ∧ (isIdentifierChar x = true ∨ x = '\\') := by
  have hRead := h.2 [] rfl
  rw [List.append_nil] at hRead
  cases text with
  | nil =>
      rw [readIdentifier?] at hRead
      cases hRead
      exact absurd rfl h.1
  | cons x xs =>
      refine ⟨x, xs, rfl, ?_⟩
      by_cases hSlash : x = '\\'
      · exact .inr hSlash
      · rw [readIdentifier?.eq_3 _ _ (by
          rintro rfl
          exact absurd rfl hSlash)] at hRead
        split at hRead
        · next hChar => exact .inl hChar
        · simp at hRead

------------------------------------------------------------
-- Quoted Texts
------------------------------------------------------------

/- A character that is no hexadecimal digit stands for itself. -/
theorem readEscape?_of_not_hex
    {c : Char}
    (h : Text.isHexDigit c = false)
    (cs : List Char) :
    Text.readEscape? (c :: cs) = some (c, cs) := by
  unfold Text.readEscape?
  simp [h]

/- A quoted text is read up to its last quote. -/
theorem readQuoted_escapeQuoted
    (value rest : List Char) :
    readQuoted '"' (Text.escapeQuoted value ++ '"' :: rest) =
      .closed value rest := by
  induction value with
  | nil =>
      rw [Text.escapeQuoted, List.nil_append, readQuoted, if_pos rfl]
  | cons c value ih =>
      rw [Text.escapeQuoted]
      by_cases hMarked : c = '\\' ∨ c = '"'
      · have hNotHex : Text.isHexDigit c = false := by
          rcases hMarked with rfl | rfl
          · decide
          · decide
        rw [if_pos hMarked, List.cons_append, List.cons_append, readQuoted,
          if_neg (by decide), if_pos rfl]
        split
        · next hRead =>
            rw [readEscape?_of_not_hex hNotHex] at hRead
            simp at hRead
        · next d after hRead =>
            rw [readEscape?_of_not_hex hNotHex] at hRead
            simp only [Option.some.injEq, Prod.mk.injEq] at hRead
            rcases hRead with ⟨rfl, rfl⟩
            rw [ih]
            rfl
      · rw [if_neg hMarked, List.cons_append, readQuoted,
          if_neg fun hQuote => hMarked (.inr hQuote),
          if_neg fun hSlash => hMarked (.inl hSlash), ih]
        rfl

------------------------------------------------------------
-- Bracketed Texts
------------------------------------------------------------

section Balanced

variable {opening closing : Char}

theorem ne_slash_of_not_escape
    {c : Char}
    {cs : List Char}
    (hEnd : c = '\\' → cs = [] → False)
    (hSlash : ∀ d ds, c = '\\' → cs = d :: ds → False) :
    c ≠ '\\' := by
  intro hMark
  cases cs with
  | nil => exact hEnd hMark rfl
  | cons d ds => exact hSlash d ds hMark rfl

/- Within quotes only the quote itself means something. -/
theorem readBalanced?_some
    {c : Char}
    (hSlash : c ≠ '\\')
    (depth : Nat)
    (q : Char)
    (cs : List Char) :
    readBalanced? opening closing depth (some q) (c :: cs) =
      prepend c
        (readBalanced? opening closing depth
          (if c = q then none else some q) cs) := by
  rw [readBalanced?]
  · intro hMark
    exact absurd hMark hSlash
  · intro _ _ hMark
    exact absurd hMark hSlash

/- Outside of quotes brackets and quotes do. -/
theorem readBalanced?_none
    {c : Char}
    (hSlash : c ≠ '\\')
    (depth : Nat)
    (cs : List Char) :
    readBalanced? opening closing depth none (c :: cs) =
      if isQuote c then
        prepend c (readBalanced? opening closing depth (some c) cs)
      else if c = opening then
        prepend c (readBalanced? opening closing (depth + 1) none cs)
      else if c = closing then
        match depth with
        | 0 => some ([], cs)
        | depth + 1 =>
            prepend c (readBalanced? opening closing depth none cs)
      else
        prepend c (readBalanced? opening closing depth none cs) := by
  rw [readBalanced?.eq_def]
  split
  · next hMark => simp at hMark
  · next hMark =>
      simp only [List.cons.injEq] at hMark
      exact absurd hMark.1 hSlash
  · next hMark =>
      simp only [List.cons.injEq] at hMark
      exact absurd hMark.1 hSlash
  · next hOther _ => simp at hOther
  · next hMark =>
      cases hMark
      rfl

/- What follows the closing bracket does not matter. -/
theorem readBalanced?_append
    {depth : Nat}
    {quote : Option Char}
    {cs content rest : List Char}
    (h : readBalanced? opening closing depth quote cs =
      some (content, rest))
    (after : List Char) :
    readBalanced? opening closing depth quote (cs ++ after) =
      some (content, rest ++ after) := by
  fun_induction readBalanced? opening closing depth quote cs
    generalizing content with
  | case1 => simp at h
  | case2 => simp at h
  | case3 depth quote c cs ih =>
      rcases prepend_eq_some_iff.1 h with ⟨tail, hTail, rfl⟩
      rcases prepend_eq_some_iff.1 hTail with ⟨tail', hTail', rfl⟩
      simp [readBalanced?, ih hTail', prepend]
  | case4 depth q c cs hEnd hSlash ih =>
      rcases prepend_eq_some_iff.1 h with ⟨tail, hTail, rfl⟩
      have hPlain := ne_slash_of_not_escape hEnd hSlash
      rw [List.cons_append, readBalanced?_some hPlain, ih hTail]
      rfl
  | case5 depth c cs hEnd hSlash hQuote ih =>
      rcases prepend_eq_some_iff.1 h with ⟨tail, hTail, rfl⟩
      have hPlain := ne_slash_of_not_escape hEnd hSlash
      rw [List.cons_append, readBalanced?_none hPlain, if_pos hQuote,
        ih hTail]
      rfl
  | case6 depth cs hEnd hSlash hQuote ih =>
      rcases prepend_eq_some_iff.1 h with ⟨tail, hTail, rfl⟩
      have hPlain := ne_slash_of_not_escape hEnd hSlash
      rw [List.cons_append, readBalanced?_none hPlain, if_neg hQuote,
        if_pos rfl, ih hTail]
      rfl
  | case7 cs hEnd hSlash hQuote hOpening =>
      cases h
      have hPlain := ne_slash_of_not_escape hEnd hSlash
      rw [List.cons_append, readBalanced?_none hPlain, if_neg hQuote,
        if_neg hOpening, if_pos rfl]
  | case8 cs depth hEnd hSlash hQuote hOpening ih =>
      rcases prepend_eq_some_iff.1 h with ⟨tail, hTail, rfl⟩
      have hPlain := ne_slash_of_not_escape hEnd hSlash
      rw [List.cons_append, readBalanced?_none hPlain, if_neg hQuote,
        if_neg hOpening, if_pos rfl]
      simp only [ih hTail]
      rfl
  | case9 depth c cs hEnd hSlash hQuote hOpening hClosing ih =>
      rcases prepend_eq_some_iff.1 h with ⟨tail, hTail, rfl⟩
      have hPlain := ne_slash_of_not_escape hEnd hSlash
      rw [List.cons_append, readBalanced?_none hPlain, if_neg hQuote,
        if_neg hOpening, if_neg hClosing, ih hTail]
      rfl

------------------------------------------------------------
-- Texts Between Brackets
------------------------------------------------------------

/- Put a text before the content that was read. -/
def prependText
    (text : List Char)
    (read? : Option (List Char × List Char)) :
    Option (List Char × List Char) :=
  read?.map fun (content, rest) => (text ++ content, rest)

/- Between brackets the text is passed over. -/
def Spans (opening closing : Char) (text : List Char) : Prop :=
  ∀ depth rest,
    readBalanced? opening closing depth none (text ++ rest) =
      prependText text (readBalanced? opening closing depth none rest)

/- The text closes the brackets and the quotes that it opens. -/
def isBalanced (opening closing : Char) (text : List Char) : Bool :=
  readBalanced? opening closing 0 none (text ++ [closing]) ==
    some (text, [])

theorem prependText_append
    (xs ys : List Char)
    (read? : Option (List Char × List Char)) :
    prependText (xs ++ ys) read? =
      prependText xs (prependText ys read?) := by
  cases read? with
  | none => rfl
  | some read =>
      rcases read with ⟨content, rest⟩
      simp [prependText]

theorem prepend_prependText
    (c : Char)
    (text : List Char)
    (read? : Option (List Char × List Char)) :
    prepend c (prependText text read?) = prependText (c :: text) read? := by
  cases read? with
  | none => rfl
  | some read => rfl

theorem spans_nil : Spans opening closing [] := by
  intro depth rest
  cases h : readBalanced? opening closing depth none rest with
  | none => simp [prependText, h]
  | some read => simp [prependText, h]

theorem Spans.append
    {xs ys : List Char}
    (hLeft : Spans opening closing xs)
    (hRight : Spans opening closing ys) :
    Spans opening closing (xs ++ ys) := by
  intro depth rest
  rw [List.append_assoc, hLeft, hRight, prependText_append]

/- A character that means nothing to brackets is passed over. -/
theorem spans_singleton
    {c : Char}
    (h : c ∉ ['\\', '"', '\'', opening, closing]) :
    Spans opening closing [c] := by
  intro depth rest
  simp only [List.mem_cons, List.not_mem_nil, or_false, not_or] at h
  rcases h with ⟨hSlash, hDouble, hSingle, hOpening, hClosing⟩
  have hQuote : isQuote c = false := by
    simp [isQuote, hDouble, hSingle]
  rw [List.singleton_append, readBalanced?_none hSlash, hQuote,
    if_neg hOpening, if_neg hClosing]
  rfl

theorem spans_of_forall
    {text : List Char}
    (h : ∀ c ∈ text, c ∉ ['\\', '"', '\'', opening, closing]) :
    Spans opening closing text := by
  induction text with
  | nil => exact spans_nil
  | cons c text ih =>
      have hHead := spans_singleton (h c (by simp))
      have hTail := ih fun d hMem => h d (by simp [hMem])
      exact hHead.append hTail

/- The inside of a quoted text is passed over up to its quote. -/
theorem readBalanced?_escapeQuoted
    (depth : Nat)
    (value rest : List Char) :
    readBalanced? opening closing depth (some '"')
        (Text.escapeQuoted value ++ '"' :: rest) =
      prependText (Text.escapeQuoted value ++ ['"'])
        (readBalanced? opening closing depth none rest) := by
  induction value with
  | nil =>
      rw [Text.escapeQuoted, List.nil_append,
        readBalanced?_some (by decide), if_pos rfl]
      rfl
  | cons c value ih =>
      rw [Text.escapeQuoted]
      by_cases hMarked : c = '\\' ∨ c = '"'
      · rw [if_pos hMarked, List.cons_append, List.cons_append,
          readBalanced?, ih, prepend_prependText, prepend_prependText]
        rfl
      · have hSlash : c ≠ '\\' := fun hMark => hMarked (.inl hMark)
        have hQuote : c ≠ '"' := fun hMark => hMarked (.inr hMark)
        rw [if_neg hMarked, List.cons_append, readBalanced?_some hSlash,
          if_neg hQuote, ih, prepend_prependText]
        rfl

/- A quoted text is passed over, whatever it quotes. -/
theorem spans_quoted (s : String) :
    Spans opening closing (Text.quoted s).toList := by
  intro depth rest
  have hQuote : isQuote '"' = true := by decide
  rw [Text.quoted, String.toList_ofList, List.append_assoc,
    List.cons_append, List.singleton_append,
    readBalanced?_none (by decide), if_pos hQuote,
    readBalanced?_escapeQuoted, prepend_prependText]
  rfl

/- So is a text between the brackets themselves. -/
theorem Spans.enclose
    {text : List Char}
    (hText : Spans opening closing text)
    (hOpening : opening ∉ ['\\', '"', '\''])
    (hClosing : closing ∉ ['\\', '"', '\'', opening]) :
    Spans opening closing (opening :: text ++ [closing]) := by
  intro depth rest
  simp only [List.mem_cons, List.not_mem_nil, or_false, not_or]
    at hOpening hClosing
  rcases hOpening with ⟨hSlash, hDouble, hSingle⟩
  rcases hClosing with ⟨hSlash', hDouble', hSingle', hOther⟩
  have hQuote : isQuote opening = false := by
    simp [isQuote, hDouble, hSingle]
  have hQuote' : isQuote closing = false := by
    simp [isQuote, hDouble', hSingle']
  rw [List.append_assoc, List.cons_append, List.singleton_append,
    readBalanced?_none hSlash, hQuote, if_neg (by simp), if_pos rfl,
    hText, readBalanced?_none hSlash', hQuote', if_neg (by simp),
    if_neg hOther, if_pos rfl]
  change
    prepend opening (prependText text (prependText [closing]
      (readBalanced? opening closing depth none rest))) = _
  rw [← prependText_append, prepend_prependText]
  rfl

/- A text that is passed over closes what it opens. -/
theorem Spans.isBalanced
    {text : List Char}
    (hText : Spans opening closing text)
    (hClosing : closing ∉ ['\\', '"', '\'', opening]) :
    isBalanced opening closing text = true := by
  simp only [List.mem_cons, List.not_mem_nil, or_false, not_or]
    at hClosing
  rcases hClosing with ⟨hSlash, hDouble, hSingle, hOther⟩
  have hQuote : isQuote closing = false := by
    simp [isQuote, hDouble, hSingle]
  rw [TreeQuery.isBalanced, hText, readBalanced?_none hSlash, hQuote,
    if_neg (by simp), if_neg hOther, if_pos rfl]
  simp [prependText]

/-
  What is read up to its closing bracket is passed over where
  more brackets are open.
-/
theorem readBalanced?_deeper
    {depth : Nat}
    {quote : Option Char}
    {cs content rest : List Char}
    (h : readBalanced? opening closing depth quote cs =
      some (content, rest))
    (outer : Nat)
    (after : List Char) :
    readBalanced? opening closing (depth + outer) quote
        (content ++ after) =
      prependText content
        (readBalanced? opening closing outer none after) := by
  fun_induction readBalanced? opening closing depth quote cs
    generalizing content with
  | case1 => simp at h
  | case2 => simp at h
  | case3 depth quote c cs ih =>
      rcases prepend_eq_some_iff.1 h with ⟨tail, hTail, rfl⟩
      rcases prepend_eq_some_iff.1 hTail with ⟨tail', hTail', rfl⟩
      rw [List.cons_append, List.cons_append, readBalanced?, ih hTail',
        prepend_prependText, prepend_prependText]
  | case4 depth q c cs hEnd hSlash ih =>
      rcases prepend_eq_some_iff.1 h with ⟨tail, hTail, rfl⟩
      have hPlain := ne_slash_of_not_escape hEnd hSlash
      rw [List.cons_append, readBalanced?_some hPlain, ih hTail,
        prepend_prependText]
  | case5 depth c cs hEnd hSlash hQuote ih =>
      rcases prepend_eq_some_iff.1 h with ⟨tail, hTail, rfl⟩
      have hPlain := ne_slash_of_not_escape hEnd hSlash
      rw [List.cons_append, readBalanced?_none hPlain, if_pos hQuote,
        ih hTail, prepend_prependText]
  | case6 depth cs hEnd hSlash hQuote ih =>
      rcases prepend_eq_some_iff.1 h with ⟨tail, hTail, rfl⟩
      have hPlain := ne_slash_of_not_escape hEnd hSlash
      have hDepth : depth + outer + 1 = depth + 1 + outer := by omega
      rw [List.cons_append, readBalanced?_none hPlain, if_neg hQuote,
        if_pos rfl, hDepth, ih hTail, prepend_prependText]
  | case7 cs hEnd hSlash hQuote hOpening =>
      cases h
      rw [Nat.zero_add, List.nil_append]
      cases readBalanced? opening closing outer none after with
      | none => rfl
      | some read => rfl
  | case8 cs depth hEnd hSlash hQuote hOpening ih =>
      rcases prepend_eq_some_iff.1 h with ⟨tail, hTail, rfl⟩
      have hPlain := ne_slash_of_not_escape hEnd hSlash
      have hDepth : depth + 1 + outer = depth + outer + 1 := by omega
      rw [List.cons_append, hDepth, readBalanced?_none hPlain,
        if_neg hQuote, if_neg hOpening, if_pos rfl]
      simp only [ih hTail, prepend_prependText]
  | case9 depth c cs hEnd hSlash hQuote hOpening hClosing ih =>
      rcases prepend_eq_some_iff.1 h with ⟨tail, hTail, rfl⟩
      have hPlain := ne_slash_of_not_escape hEnd hSlash
      rw [List.cons_append, readBalanced?_none hPlain, if_neg hQuote,
        if_neg hOpening, if_neg hClosing, ih hTail, prepend_prependText]

/- What is read up to its closing bracket is passed over. -/
theorem spans_of_readBalanced?
    {cs content rest : List Char}
    (h : readBalanced? opening closing 0 none cs = some (content, rest)) :
    Spans opening closing content := by
  intro depth after
  have hRead := readBalanced?_deeper h depth after
  rwa [Nat.zero_add] at hRead

/-
  What is read up to its closing bracket is passed over between
  other brackets if none of them stands in it.
-/
theorem readBalanced?_exchange
    {opening' closing' : Char}
    {depth : Nat}
    {quote : Option Char}
    {cs content rest : List Char}
    (h : readBalanced? opening closing depth quote cs =
      some (content, rest))
    (hOther : ∀ x ∈ content, x ≠ opening' ∧ x ≠ closing')
    (outer : Nat)
    (after : List Char) :
    readBalanced? opening' closing' outer quote (content ++ after) =
      prependText content
        (readBalanced? opening' closing' outer none after) := by
  -- Outside of quotes and escapes every character is passed alone.
  have hPlainStep :
      ∀ {x : Char} {tail : List Char}, x ≠ '\\' → ¬isQuote x = true →
        x ≠ opening' ∧ x ≠ closing' →
          readBalanced? opening' closing' outer none (x :: (tail ++ after)) =
            prepend x
              (readBalanced? opening' closing' outer none (tail ++ after)) := by
    intro x tail hSlash hQuote hApart
    rw [readBalanced?_none hSlash, if_neg hQuote, if_neg hApart.1,
      if_neg hApart.2]
  fun_induction readBalanced? opening closing depth quote cs
    generalizing content with
  | case1 => simp at h
  | case2 => simp at h
  | case3 depth quote c cs ih =>
      rcases prepend_eq_some_iff.1 h with ⟨tail, hTail, rfl⟩
      rcases prepend_eq_some_iff.1 hTail with ⟨tail', hTail', rfl⟩
      have hRest := ih hTail' fun x hMem => hOther x (by simp [hMem])
      rw [List.cons_append, List.cons_append, readBalanced?, hRest,
        prepend_prependText, prepend_prependText]
  | case4 depth q c cs hEnd hSlash ih =>
      rcases prepend_eq_some_iff.1 h with ⟨tail, hTail, rfl⟩
      have hPlain := ne_slash_of_not_escape hEnd hSlash
      have hRest := ih hTail fun x hMem => hOther x (by simp [hMem])
      rw [List.cons_append, readBalanced?_some hPlain, hRest,
        prepend_prependText]
  | case5 depth c cs hEnd hSlash hQuote ih =>
      rcases prepend_eq_some_iff.1 h with ⟨tail, hTail, rfl⟩
      have hPlain := ne_slash_of_not_escape hEnd hSlash
      have hRest := ih hTail fun x hMem => hOther x (by simp [hMem])
      rw [List.cons_append, readBalanced?_none hPlain, if_pos hQuote,
        hRest, prepend_prependText]
  | case6 depth cs hEnd hSlash hQuote ih =>
      rcases prepend_eq_some_iff.1 h with ⟨tail, hTail, rfl⟩
      have hPlain := ne_slash_of_not_escape hEnd hSlash
      have hRest := ih hTail fun x hMem => hOther x (by simp [hMem])
      rw [List.cons_append, hPlainStep hPlain hQuote (hOther _ (by simp)),
        hRest, prepend_prependText]
  | case7 cs hEnd hSlash hQuote hOpening =>
      cases h
      rw [List.nil_append]
      cases readBalanced? opening' closing' outer none after with
      | none => rfl
      | some read => rfl
  | case8 cs depth hEnd hSlash hQuote hOpening ih =>
      rcases prepend_eq_some_iff.1 h with ⟨tail, hTail, rfl⟩
      have hPlain := ne_slash_of_not_escape hEnd hSlash
      have hRest := ih hTail fun x hMem => hOther x (by simp [hMem])
      rw [List.cons_append, hPlainStep hPlain hQuote (hOther _ (by simp)),
        hRest, prepend_prependText]
  | case9 depth c cs hEnd hSlash hQuote hOpening hClosing ih =>
      rcases prepend_eq_some_iff.1 h with ⟨tail, hTail, rfl⟩
      have hPlain := ne_slash_of_not_escape hEnd hSlash
      have hRest := ih hTail fun x hMem => hOther x (by simp [hMem])
      rw [List.cons_append, hPlainStep hPlain hQuote (hOther _ (by simp)),
        hRest, prepend_prependText]

/- So what is passed over is passed over between other brackets. -/
theorem Spans.exchange
    {opening' closing' : Char}
    {text : List Char}
    (hText : Spans opening closing text)
    (hClosing : closing ∉ ['\\', '"', '\'', opening])
    (hOther : ∀ x ∈ text, x ≠ opening' ∧ x ≠ closing') :
    Spans opening' closing' text :=
  readBalanced?_exchange (eq_of_beq (hText.isBalanced hClosing)) hOther

/- A text that closes what it opens is passed over. -/
theorem spans_of_isBalanced
    {text : List Char}
    (h : isBalanced opening closing text = true) :
    Spans opening closing text :=
  spans_of_readBalanced? (eq_of_beq h)

/- Behind a text that is passed over the rest is passed over alone. -/
theorem Spans.of_append
    {xs ys : List Char}
    (hLeft : Spans opening closing xs)
    (hBoth : Spans opening closing (xs ++ ys)) :
    Spans opening closing ys := by
  intro depth rest
  have hRead := hBoth depth rest
  rw [List.append_assoc, hLeft, prependText_append] at hRead
  have hInjective :
      Function.Injective fun read : List Char × List Char =>
        (xs ++ read.1, read.2) := by
    rintro ⟨cs, ds⟩ ⟨cs', ds'⟩ hSame
    simpa using hSame
  exact Option.map_injective hInjective hRead

theorem Spans.isBalanced_append
    {xs ys : List Char}
    (hLeft : Spans opening closing xs)
    (hRight : TreeQuery.isBalanced opening closing ys = true) :
    TreeQuery.isBalanced opening closing (xs ++ ys) = true := by
  have hRead := eq_of_beq hRight
  rw [TreeQuery.isBalanced, List.append_assoc, hLeft, hRead]
  simp [prependText]

/- A text that closes what it opens is read up to the bracket. -/
theorem readBalanced?_of_isBalanced
    {text : List Char}
    (h : isBalanced opening closing text = true)
    (rest : List Char) :
    readBalanced? opening closing 0 none (text ++ closing :: rest) =
      some (text, rest) := by
  have hRead := readBalanced?_append (eq_of_beq h) rest
  simpa using hRead

end Balanced

namespace Scan

------------------------------------------------------------
-- Readers
------------------------------------------------------------

theorem identifier_of_writesName
    {text name rest : List Char}
    (hText : WritesName text name)
    (hRest : endsName rest = true)
    (o : Nat) :
    identifier ⟨o, text ++ rest⟩ =
      .ok (String.ofList name) ⟨o + Text.byteLength text, rest⟩ := by
  have hRead := hText.2 rest hRest
  unfold identifier
  rw [hRead]
  split
  · next hNone =>
      cases hNone
      exact absurd rfl hText.1
  · next chars after _ hSome =>
      simp only [Option.some.injEq, Prod.mk.injEq] at hSome
      rcases hSome with ⟨rfl, rfl⟩
      rw [Cursor.moveTo_append]
  · next hNone => simp at hNone

theorem identifier_append
    {name rest : List Char}
    (hName : isName name = true)
    (hRest : endsName rest = true)
    (o : Nat) :
    identifier ⟨o, name ++ rest⟩ =
      .ok (String.ofList name) ⟨o + Text.byteLength name, rest⟩ :=
  identifier_of_writesName (writesName_of_isName hName) hRest o

theorem value?_identifier
    {name : String}
    {rest : List Char}
    (hName : isName name.toList = true)
    (hRest : endsName rest = true)
    (o : Nat) :
    value? identifier ⟨o, name.toList ++ rest⟩ =
      some (name, ⟨o + Text.byteLength name.toList, rest⟩) := by
  have hRead := identifier_append hName hRest o
  rw [String.ofList_toList] at hRead
  rw [value?_eq_some_iff, hRead]

/- In quotes the text is what the quotes hold. -/
theorem quoted_of_readQuoted
    {q : Char}
    {cs content rest : List Char}
    (hQuote : isQuote q = true)
    (hRead : readQuoted q cs = .closed content rest)
    (o : Nat) :
    quoted true ⟨o, q :: cs⟩ =
      .ok (String.ofList content) ((⟨o, q :: cs⟩ : Cursor).moveTo rest) := by
  simp only [quoted, hQuote, ↓reduceIte, hRead]

/- A string that was quoted is read up to the last quote. -/
theorem quoted_quoted
    (s : String)
    (rest : List Char)
    (o : Nat) :
    quoted true ⟨o, (Text.quoted s).toList ++ rest⟩ =
      .ok s ⟨o + Text.byteLength (Text.quoted s).toList, rest⟩ := by
  have hRead := readQuoted_escapeQuoted s.toList rest
  have hText :
      (Text.quoted s).toList ++ rest =
        '"' :: (Text.escapeQuoted s.toList ++ '"' :: rest) := by
    simp [Text.quoted]
  have hMoved := Cursor.moveTo_append o (Text.quoted s).toList rest
  rw [hText] at hMoved ⊢
  rw [quoted_of_readQuoted (by decide) hRead, hMoved, String.ofList_toList]

theorem value?_quoted
    (s : String)
    (rest : List Char)
    (o : Nat) :
    ∃ o', value? (quoted true) ⟨o, (Text.quoted s).toList ++ rest⟩ =
      some (s, ⟨o', rest⟩) :=
  ⟨_, value?_eq_some_iff.2 (quoted_quoted s rest o)⟩

/- A bracketed text is read with a cursor before its content. -/
theorem value?_balanced
    {opening closing : Char}
    {text : List Char}
    (hText : isBalanced opening closing text = true)
    (code : Code)
    (rest : List Char)
    (o : Nat) :
    ∃ o', value? (balanced opening closing code)
        ⟨o, opening :: text ++ closing :: rest⟩ =
      some (⟨o + opening.utf8Size, text⟩, ⟨o', rest⟩) := by
  have hRead := readBalanced?_of_isBalanced hText rest
  refine ⟨(Cursor.moveTo ⟨o, opening :: (text ++ closing :: rest)⟩ rest).offset,
    ?_⟩
  rw [value?_eq_some_iff, List.cons_append]
  simp only [balanced, ↓reduceIte, hRead]
  rfl

/-
  What is read between brackets is passed over, and stands
  between the two of them.
-/
theorem split_of_balanced
    {opening closing : Char}
    {code : Code}
    {c d part : Cursor}
    (h : balanced opening closing code c = .ok part d) :
    Spans opening closing part.rest ∧
      c.rest = opening :: (part.rest ++ closing :: d.rest) ∧
        part.offset = c.offset + opening.utf8Size ∧
          d = c.moveTo d.rest := by
  unfold balanced at h
  split at h
  · simp at h
  · next b cs hCons =>
      split at h
      · next hOpening =>
          split at h
          · next content rest hRead =>
              cases h
              refine ⟨spans_of_readBalanced? hRead, ?_, rfl, rfl⟩
              rw [hCons, hOpening, readBalanced?_split hRead]
              rfl
          · simp at h
      · simp at h

/- Between brackets that are no quotes any such text is read. -/
theorem balanced_eq_ok_iff
    {opening closing : Char}
    (hClosing : closing ∉ ['\\', '"', '\'', opening])
    {code : Code}
    {c d part : Cursor} :
    balanced opening closing code c = .ok part d ↔
      Spans opening closing part.rest ∧
        c.rest = opening :: (part.rest ++ closing :: d.rest) ∧
          part.offset = c.offset + opening.utf8Size ∧
            d = c.moveTo d.rest := by
  constructor
  · exact split_of_balanced
  · rintro ⟨hSpans, hCons, hOffset, hMoved⟩
    have hRead :=
      readBalanced?_of_isBalanced (hSpans.isBalanced hClosing) d.rest
    unfold balanced
    rw [hCons]
    simp only [↓reduceIte, hRead, ← hOffset]
    rw [← hMoved]

/- A sign is read if it comes next. -/
theorem value?_chomp_sign
    {text : String}
    {sign : Char}
    (hText : text.toList = [sign])
    (hSign : sign ∈ ['|', '*', '^', ','])
    (o : Nat)
    (rest : List Char) :
    value? (chomp text) ⟨o, rest⟩ =
      match rest with
      | [] => some (false, ⟨o, rest⟩)
      | x :: xs =>
          if x = sign then some (true, ⟨o + 1, xs⟩)
          else some (false, ⟨o, rest⟩) := by
  have hByte : ∀ sign ∈ ['|', '*', '^', ','], sign.utf8Size = 1 :=
    List.all_iff_forall_prop.1 (by decide)
  rw [value?_chomp, hText,
    Cursor.chomp?_sign (hByte sign hSign) (Text.toLower_eq_sign_iff hSign)]
  cases rest with
  | nil => rfl
  | cons x xs =>
      by_cases hNext : x = sign
      · simp [hNext]
      · simp [hNext]

/- A comma is read where one stands, and none at the end of the text. -/
theorem value?_chomp_comma (o : Nat) (rest : List Char) :
    value? (chomp ",") ⟨o, ',' :: rest⟩ = some (true, ⟨o + 1, rest⟩) := by
  have hText : ",".toList = [','] := rfl
  rw [value?_chomp_sign hText (by simp)]
  rfl

theorem value?_chomp_comma_end
    {c : Cursor}
    (h : c.rest = []) :
    value? (chomp ",") c = some (false, c) := by
  have hText : ",".toList = [','] := rfl
  rcases c with ⟨o, rest⟩
  cases h
  rw [value?_chomp_sign hText (by simp)]

end Scan

end TreeQuery
