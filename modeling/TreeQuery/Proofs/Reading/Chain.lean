import TreeQuery.Proofs.Reading.Part

/-
  Compounds, chains and groups that are read again.

  A text is read from its front, and what stands behind a
  compound or a chain is read on with it as the left operand.
  So the text of a legible selector is read as that selector,
  or not at all where a needle is empty.

  Key definitions include:
    * `endsCompound`
    * `beginsCompound`

  Main statement:
    * `Selector.IsWritten.readsBack_readPart`
-/

namespace TreeQuery

variable {E : Engine}

------------------------------------------------------------
-- Ends and Beginnings
------------------------------------------------------------

/- A compound before the text ends there. -/
def endsCompound : List Char → Bool
| [] => true
| x :: _ => x == ' ' || x == ','

/- A compound can begin with the character. -/
def beginsCompound (x : Char) : Bool :=
  !Text.isBlank x && !(['>', '+', '~', ','].contains x)

theorem endsPart_of_endsCompound
    {rest : List Char}
    (h : endsCompound rest = true) :
    endsPart rest = true := by
  cases rest with
  | nil => rfl
  | cons x xs =>
      simp only [endsCompound, Bool.or_eq_true, beq_iff_eq] at h
      rcases h with rfl | rfl
      · rfl
      · rfl

namespace Scan

variable {nested : Cursor → Except Fault (Selector E)}

/- No part begins where a compound ends. -/
theorem value?_part?_end
    {rest : List Char}
    (hRest : endsCompound rest = true)
    (before : List (Selector E))
    (o : Nat) :
    value? (part? nested before) ⟨o, rest⟩ = some (none, ⟨o, rest⟩) := by
  rw [value?_part?]
  cases rest with
  | nil => rfl
  | cons x xs =>
      have hNone :
          ∀ first, partStart? first ' ' = none ∧
            partStart? first ',' = none := by
        decide
      simp only [endsCompound, Bool.or_eq_true, beq_iff_eq] at hRest
      rcases hRest with rfl | rfl
      · simp [hNone]
      · simp [hNone]

------------------------------------------------------------
-- Links
------------------------------------------------------------

theorem beginsCompound_spec
    {x : Char}
    (h : beginsCompound x = true) :
    Text.isBlank x = false ∧ x ≠ ',' ∧ combinator? x = none := by
  simp only [beginsCompound, Bool.and_eq_true, Bool.not_eq_true',
    List.contains_eq_mem, decide_eq_false_iff_not, List.mem_cons,
    List.not_mem_nil, or_false, not_or] at h
  rcases h with ⟨hUnblank, hChild, hAdjacent, hSibling, hComma⟩
  exact ⟨hUnblank, hComma, by
    simp [combinator?, hChild, hAdjacent, hSibling]⟩

/- What a link is depends on the character behind the blanks. -/
theorem value?_link_eq (c : Cursor) :
    value? link c =
      match c.skipBlanks.rest with
      | [] => some (.finished, c.skipBlanks)
      | x :: xs =>
          if x = ',' then some (.finished, c.skipBlanks)
          else
            match combinator? x with
            | some combinator =>
                let d := Cursor.skipBlanks
                  ⟨c.skipBlanks.offset + x.utf8Size, xs⟩
                if d.rest.isEmpty then none
                else some (.related combinator, d)
            | none =>
                if c.atBlank then some (.related .descendant, c.skipBlanks)
                else none := by
  rw [link, value?_bind, value?_skipBlanks, Option.bind_some]
  simp only [value?_bind, value?_peek?, Option.bind_some]
  generalize c.skipBlanks = e
  rcases e with ⟨o, rest⟩
  cases rest with
  | nil => rfl
  | cons x xs =>
      simp only [List.head?_cons]
      by_cases hComma : x = ','
      · simp [hComma]
      · cases hSign : combinator? x with
        | none =>
            by_cases hSpaced : c.atBlank = true
            · simp [hComma, hSpaced]
            · simp [hComma, hSpaced]
        | some combinator =>
            generalize hEnd :
              Cursor.skipBlanks ⟨o + x.utf8Size, xs⟩ = d
            rcases d with ⟨o', rest'⟩
            cases rest' with
            | nil => simp [hComma, hEnd]
            | cons y ys => simp [hComma, hEnd]

/- A chain ends behind blanks, with its text or before a comma. -/
theorem value?_link_finished_iff
    {c d : Cursor} :
    value? link c = some (.finished, d) ↔
      d = c.skipBlanks ∧ (d.rest = [] ∨ ∃ xs, d.rest = ',' :: xs) := by
  rw [value?_link_eq]
  constructor
  · intro h
    split at h
    · next hNil =>
        cases h
        exact ⟨rfl, .inl hNil⟩
    · next x xs hCons =>
        by_cases hComma : x = ','
        · rw [if_pos hComma] at h
          cases h
          exact ⟨rfl, .inr ⟨xs, by rw [hCons, hComma]⟩⟩
        · rw [if_neg hComma] at h
          split at h
          · simp at h
          · simp at h
  · rintro ⟨rfl, hNil | ⟨xs, hComma⟩⟩
    · rw [hNil]
    · rw [hComma]
      rfl

/- It goes on behind a sign and blanks, or behind blanks alone. -/
theorem value?_link_related_iff
    {combinator : Combinator}
    {c d : Cursor} :
    value? link c = some (.related combinator, d) ↔
      ∃ x xs, c.skipBlanks.rest = x :: xs ∧ x ≠ ',' ∧
        ((combinator? x = some combinator ∧ d.rest ≠ [] ∧
            d = .skipBlanks ⟨c.skipBlanks.offset + x.utf8Size, xs⟩) ∨
          (combinator? x = none ∧ c.atBlank = true ∧
            combinator = .descendant ∧ d = c.skipBlanks)) := by
  rw [value?_link_eq]
  constructor
  · intro h
    split at h
    · simp at h
    · next x xs hCons =>
        by_cases hComma : x = ','
        · simp [hComma] at h
        · rw [if_neg hComma] at h
          refine ⟨x, xs, hCons, hComma, ?_⟩
          split at h
          · next found hSign =>
              by_cases hEnd :
                  (Cursor.skipBlanks
                    ⟨c.skipBlanks.offset + x.utf8Size, xs⟩).rest.isEmpty = true
              · simp [hEnd] at h
              · simp only [hEnd, Bool.false_eq_true, ↓reduceIte,
                  Option.some.injEq, Prod.mk.injEq, Link.related.injEq] at h
                rcases h with ⟨rfl, rfl⟩
                exact .inl ⟨hSign, by simpa using hEnd, rfl⟩
          · next hSign =>
              by_cases hSpaced : c.atBlank = true
              · simp only [hSpaced, ↓reduceIte, Option.some.injEq,
                  Prod.mk.injEq, Link.related.injEq] at h
                exact .inr ⟨hSign, hSpaced, h.1.symm, h.2.symm⟩
              · simp [hSpaced] at h
  · rintro ⟨x, xs, hCons, hComma, ⟨hSign, hSome, rfl⟩ | hBlank⟩
    · have hMore := List.isEmpty_eq_false_iff.2 hSome
      rw [hCons]
      simp only [hComma, ↓reduceIte, hSign, hMore, Bool.false_eq_true]
    · rcases hBlank with ⟨hSign, hSpaced, rfl, rfl⟩
      rw [hCons]
      simp only [hComma, ↓reduceIte, hSign, hSpaced]

/- A sign is read with the space behind it. -/
theorem value?_link_sign
    {x y : Char}
    {c : Combinator}
    {xs : List Char}
    {o : Nat}
    {d : Cursor}
    (hSign : combinator? y = some c)
    (hBegins : beginsCompound x = true)
    (hSkip : d.skipBlanks = ⟨o, y :: ' ' :: x :: xs⟩) :
    ∃ o', value? link d = some (.related c, ⟨o', x :: xs⟩) := by
  have hComma := (Selector.isBlank_of_combinator? hSign).2
  have hNext := (beginsCompound_spec hBegins).1
  refine ⟨o + y.utf8Size + 1, ?_⟩
  rw [value?_link_eq, hSkip]
  simp only [hComma, ↓reduceIte, hSign, Cursor.skipBlanks_space hNext,
    List.isEmpty_cons, Bool.false_eq_true]

/- A sign that stands first is read as its combinator. -/
theorem value?_link_first
    {x y : Char}
    {c : Combinator}
    (hSign : combinator? y = some c)
    (hBegins : beginsCompound x = true)
    (xs : List Char)
    (o : Nat) :
    ∃ o', value? link ⟨o, y :: ' ' :: x :: xs⟩ =
      some (.related c, ⟨o', x :: xs⟩) := by
  have hUnblank := (Selector.isBlank_of_combinator? hSign).1
  exact value?_link_sign hSign hBegins
    (Cursor.skipBlanks_cons_of_not hUnblank o (' ' :: x :: xs))

/- A sign between two operands is read as its combinator. -/
theorem value?_link
    {x : Char}
    (hBegins : beginsCompound x = true)
    (c : Combinator)
    (xs : List Char)
    (o : Nat) :
    ∃ o', value? link ⟨o, c.sign.toList ++ x :: xs⟩ =
      some (.related c, ⟨o', x :: xs⟩) := by
  rcases beginsCompound_spec hBegins with ⟨hUnblank, hComma, hNoSign⟩
  have hRelated :
      ∀ y, combinator? y = some c →
        ∃ o', value? link ⟨o, ' ' :: y :: ' ' :: x :: xs⟩ =
          some (.related c, ⟨o', x :: xs⟩) := by
    intro y hSign
    have hSpace := (Selector.isBlank_of_combinator? hSign).1
    exact value?_link_sign hSign hBegins
      (Cursor.skipBlanks_space hSpace o (' ' :: x :: xs))
  cases c with
  | descendant =>
      refine ⟨o + 1, ?_⟩
      change value? link ⟨o, ' ' :: x :: xs⟩ = _
      rw [value?_link_eq, Cursor.skipBlanks_space hUnblank]
      simp only [hComma, ↓reduceIte, hNoSign]
      rfl
  | child => exact hRelated '>' rfl
  | adjacent => exact hRelated '+' rfl
  | sibling => exact hRelated '~' rfl

/- A chain that does not go on is what has been read. -/
theorem value?_chainFrom_finished
    {c d : Cursor}
    (h : value? link c = some (.finished, d))
    (s : Selector E) :
    value? (chainFrom nested s) c = some (s, d) := by
  rw [value?_chainFrom, next?, value?_bind, h]
  rfl

/- A chain ends with the text and before a comma. -/
theorem value?_chainFrom_end
    {rest : List Char}
    (hRest : rest = [] ∨ ∃ more, rest = ',' :: more)
    (s : Selector E)
    (o : Nat) :
    value? (chainFrom nested s) ⟨o, rest⟩ = some (s, ⟨o, rest⟩) := by
  have hSkip : Cursor.skipBlanks ⟨o, rest⟩ = ⟨o, rest⟩ := by
    have hUnblank : Text.isBlank ',' = false := by decide
    rcases hRest with rfl | ⟨more, rfl⟩
    · exact Cursor.skipBlanks_nil o
    · exact Cursor.skipBlanks_cons_of_not hUnblank o more
  apply value?_chainFrom_finished
  exact value?_link_finished_iff.2 ⟨hSkip.symm, hRest⟩

end Scan

namespace Selector

variable {P : Selector E → Prop}
variable {nested : Cursor → Except Fault (Selector E)}

------------------------------------------------------------
-- Compounds
------------------------------------------------------------

/- A legible part begins with a sign, or with a name if it is first. -/
theorem IsPart.head_text
    {before : List (Selector E)}
    {part : Selector E}
    (hPart : IsPart P before part)
    (hLegible : part.isLegible = true) :
    ∃ x, part.text.toList.head? = some x ∧
      (x ∈ ['#', '.', '[', ':'] ∨
        before = [] ∧ Text.isBlank x = false ∧
          (x = '*' ∨ isIdentifierChar x = true)) := by
  cases hPart with
  | universal => exact ⟨'*', by simp [text], .inr ⟨rfl, by decide, .inl rfl⟩⟩
  | @tag test hSmall =>
      by_cases hStar : ∃ l, test = .anyNamespace l
      · rcases hStar with ⟨l, rfl⟩
        exact ⟨'*', by simp [text, TagSelector.text],
          .inr ⟨rfl, by decide, .inl rfl⟩⟩
      · rcases TagSelector.head_text hLegible
          (fun l hTest => hStar ⟨l, hTest⟩) with
          ⟨x, xs, hText, hUnblank, hChar⟩
        exact ⟨x, by simp [text, hText],
          .inr ⟨rfl, hUnblank, .inr hChar⟩⟩
  | id hValue => exact ⟨'#', by simp [text], by simp⟩
  | className hName => exact ⟨'.', by simp [text], by simp⟩
  | attr hName hTest => exact ⟨'[', by simp [text], by simp⟩
  | attrStarting hStart => exact ⟨'[', by simp [text], by simp⟩
  | root => exact ⟨':', by simp [text], by simp⟩
  | scope => exact ⟨':', by simp [text], by simp⟩
  | empty => exact ⟨':', by simp [text], by simp⟩
  | onlyChild => exact ⟨':', by simp [text], by simp⟩
  | onlyOfType => exact ⟨':', by simp [text], by simp⟩
  | index hFits => exact ⟨':', by simp [text], by simp⟩
  | position =>
      refine ⟨':', ?_, by simp⟩
      rw [text, Position.text]
      split
      · simp
      · simp
  | @nested _ nesting inner hInner =>
      refine ⟨':', ?_, by simp⟩
      cases nesting with
      | has => simp [Nesting.wrap, text]
      | not => simp [Nesting.wrap, text]
      | is => simp [Nesting.wrap, text]
  | containsText => exact ⟨':', by simp [text], by simp⟩
  | matchesText hSource hCase => exact ⟨':', by simp [text], by simp⟩

/- Parts that follow others cannot be taken for more of them. -/
theorem ArePartsAfter.endsPart_text
    {before parts : List (Selector E)}
    {rest : List Char}
    (hParts : ArePartsAfter P before parts)
    (hBefore : before ≠ [])
    (hLegible : parts.all isLegible = true)
    (hRest : endsCompound rest = true) :
    endsPart ((partsText parts).toList ++ rest) = true := by
  cases hParts with
  | nil => simpa [partsText] using endsPart_of_endsCompound hRest
  | @cons _ parts part hPart hMore =>
      rw [List.all_cons, Bool.and_eq_true] at hLegible
      rcases hPart.head_text hLegible.1 with ⟨x, hHead, hSign⟩
      rcases List.head?_eq_some_iff.1 hHead with ⟨xs, hText⟩
      have hSigns : ∀ x ∈ ['#', '.', '[', ':'], endsPart [x] = true :=
        List.all_iff_forall_prop.1 (by decide)
      rcases hSign with hMem | ⟨hFirst, _⟩
      · rw [partsText, String.toList_append, hText]
        exact hSigns x hMem
      · exact absurd hFirst hBefore

section Inner

variable
  {bound : Nat}
  (hInner :
    ∀ inner, P inner → inner.isLegible = true →
      inner.text.toList.length < bound →
        inner.text.toList ≠ [] ∧ ReadsBack nested inner)

include hInner

/- Legible parts are read again one after the other. -/
theorem ArePartsAfter.value?_partsFrom
    {before parts : List (Selector E)}
    {rest : List Char}
    (hParts : ArePartsAfter P before parts)
    (hLegible : parts.all isLegible = true)
    (hBound : (partsText parts).toList.length ≤ bound)
    (hRest : endsCompound rest = true)
    (o : Nat) :
    ∃ o', Scan.value? (Scan.partsFrom nested before)
        ⟨o, (partsText parts).toList ++ rest⟩ =
      if parts.all isFilled then some (before ++ parts, ⟨o', rest⟩)
      else none := by
  induction hParts generalizing o with
  | nil =>
      refine ⟨o, ?_⟩
      rw [Scan.value?_partsFrom, partsText, String.toList_empty,
        List.nil_append, Scan.value?_part?_end hRest]
      simp
  | @cons before parts part hPart hMore ih =>
      rw [List.all_cons, Bool.and_eq_true] at hLegible
      rw [partsText, String.toList_append, List.length_append] at hBound
      have hEnds :
          endsPart ((partsText parts).toList ++ rest) = true :=
        hMore.endsPart_text (by simp) hLegible.2 hRest
      have hShorter :
          ∀ inner, P inner → inner.isLegible = true →
            inner.text.toList.length < part.text.toList.length →
              inner.text.toList ≠ [] ∧ ReadsBack nested inner := by
        intro inner hWithin hInnerLegible hLess
        exact hInner inner hWithin hInnerLegible (by omega)
      rcases hPart.value?_part? hLegible.1 hShorter hEnds o with
        ⟨e, hRead⟩
      rcases ih hLegible.2 (by omega) e with ⟨o', hReadMore⟩
      refine ⟨o', ?_⟩
      rw [Scan.value?_partsFrom, partsText, String.toList_append,
        List.append_assoc, hRead]
      by_cases hFilled : part.isFilled = true
      · rw [if_pos hFilled, Option.bind_some]
        simp only [hReadMore, List.all_cons, hFilled, Bool.true_and,
          List.append_assoc, List.singleton_append]
      · rw [if_neg hFilled]
        simp [hFilled]

/- A legible compound is read again. -/
theorem IsCompound.value?_compound
    {s : Selector E}
    {rest : List Char}
    (hCompound : IsCompound P s)
    (hLegible : s.isLegible = true)
    (hBound : s.text.toList.length ≤ bound)
    (hRest : endsCompound rest = true)
    (o : Nat) :
    ∃ o', Scan.value? (Scan.compound nested) ⟨o, s.text.toList ++ rest⟩ =
      if s.isFilled then some (s, ⟨o', rest⟩) else none := by
  rcases hCompound with ⟨parts, hSome, hParts, rfl⟩
  rw [isLegible, everyPart_ofParts] at hLegible
  rw [text_ofParts] at hBound ⊢
  have hAll : (ofParts parts).isFilled = parts.all isFilled :=
    everyPart_ofParts isFilledPart parts
  rw [hAll]
  rcases hParts.value?_partsFrom hInner hLegible hBound hRest o with
    ⟨o', hRead⟩
  refine ⟨o', ?_⟩
  rw [Scan.value?_compound, hRead]
  by_cases hFilled : parts.all isFilled = true
  · rw [if_pos hFilled, if_pos hFilled]
    simp [hSome]
  · rw [if_neg hFilled, if_neg hFilled]
    rfl

------------------------------------------------------------
-- Chains
------------------------------------------------------------

/- A legible compound that comes next is read again. -/
theorem IsCompound.value?_next?
    {s : Selector E}
    {c : Combinator}
    {rest : List Char}
    {d : Cursor}
    (hCompound : IsCompound P s)
    (hLegible : s.isLegible = true)
    (hBound : s.text.toList.length ≤ bound)
    (hRest : endsCompound rest = true)
    (hLink : ∃ o, Scan.value? Scan.link d =
      some (.related c, ⟨o, s.text.toList ++ rest⟩)) :
    ∃ o', Scan.value? (Scan.next? nested) d =
      if s.isFilled then some (some (c, s), ⟨o', rest⟩) else none := by
  rcases hLink with ⟨o, hRead⟩
  rcases hCompound.value?_compound hInner hLegible hBound hRest o with
    ⟨o', hReadCompound⟩
  refine ⟨o', ?_⟩
  rw [Scan.next?, Scan.value?_bind, hRead, Option.bind_some]
  simp only [Scan.value?_bind, hReadCompound]
  by_cases hFilled : s.isFilled = true
  · rw [if_pos hFilled, if_pos hFilled]
    rfl
  · rw [if_neg hFilled, if_neg hFilled]
    rfl

omit hInner in
/- A legible compound begins as compounds do. -/
theorem IsCompound.head_text
    {s : Selector E}
    (hCompound : IsCompound P s)
    (hLegible : s.isLegible = true) :
    ∃ x xs, s.text.toList = x :: xs ∧ beginsCompound x = true := by
  rcases hCompound with ⟨parts, hSome, hParts, rfl⟩
  rw [isLegible, everyPart_ofParts] at hLegible
  rw [text_ofParts]
  cases hParts with
  | nil => exact absurd rfl hSome
  | @cons _ parts part hPart hMore =>
      rw [List.all_cons, Bool.and_eq_true] at hLegible
      rcases hPart.head_text hLegible.1 with ⟨x, hHead, hBegins⟩
      rcases List.head?_eq_some_iff.1 hHead with ⟨xs, hText⟩
      refine ⟨x, xs ++ (partsText parts).toList, ?_, ?_⟩
      · rw [partsText, String.toList_append, hText, List.cons_append]
      · have hSigns : ∀ x ∈ ['#', '.', '[', ':'], beginsCompound x = true :=
          List.all_iff_forall_prop.1 (by decide)
        rcases hBegins with hMem | ⟨_, hUnblank, rfl | hChar⟩
        · exact hSigns x hMem
        · decide
        · have hPlain := not_special_of_isIdentifierChar hChar
          simp only [List.mem_cons, List.not_mem_nil, or_false,
            not_or] at hPlain
          simp [beginsCompound, hUnblank, hPlain]

/-
  A legible chain is read again, and with it as the left
  operand what stands behind it.
-/
theorem IsChain.value?_chain
    {s : Selector E}
    {rest : List Char}
    (hChain : IsChain P s)
    (hLegible : s.isLegible = true)
    (hBound : s.text.toList.length ≤ bound)
    (hRest : endsCompound rest = true)
    (o : Nat) :
    ∃ o', Scan.value? (Scan.chain nested) ⟨o, s.text.toList ++ rest⟩ =
      if s.isFilled then Scan.value? (Scan.chainFrom nested s) ⟨o', rest⟩
      else none := by
  induction hChain generalizing rest o with
  | @compound s hCompound =>
      rcases hCompound.head_text hLegible with ⟨x, xs, hText, hBegins⟩
      rcases hCompound.value?_compound hInner hLegible hBound hRest o with
        ⟨o', hRead⟩
      have hNoSign := (Scan.beginsCompound_spec hBegins).2.2
      refine ⟨o', ?_⟩
      rw [Scan.value?_chain, hRead, hText]
      simp only [List.cons_append, List.head?_cons, Option.bind_some,
        hNoSign, Option.isSome_none, Bool.false_eq_true, ↓reduceIte]
      by_cases hFilled : s.isFilled = true
      · rw [if_pos hFilled, if_pos hFilled]
        rfl
      · rw [if_neg hFilled, if_neg hFilled]
        rfl
  | @related left right c hLeft hRight ih =>
      rw [isLegible, everyPart_relate, Bool.and_eq_true] at hLegible
      rcases hRight.head_text hLegible.2 with ⟨x, xs, hText, hBegins⟩
      have hFilled :
          (left.relate c right).isFilled =
            (left.isFilled && right.isFilled) :=
        everyPart_relate isFilledPart c left right
      rw [text_relate, String.toList_append, List.length_append] at hBound
      rw [hFilled, text_relate, String.toList_append, List.append_assoc]
      rcases operandText_cases left c left.text with
        hOperand | ⟨rfl, y, hSign, hOperand⟩
      · have hSpace : endsCompound
            (c.sign.toList ++ (right.text.toList ++ rest)) = true := by
          cases c <;> rfl
        rw [hOperand, String.toList_append, List.length_append] at hBound
        rcases ih hLegible.1 (by omega) hSpace o with ⟨e, hReadLeft⟩
        rcases Scan.value?_link hBegins c (xs ++ rest) e with
          ⟨f, hLink⟩
        have hLink' :
            ∃ f, Scan.value? Scan.link
                ⟨e, c.sign.toList ++ (right.text.toList ++ rest)⟩ =
              some (.related c, ⟨f, right.text.toList ++ rest⟩) := by
          refine ⟨f, ?_⟩
          rw [hText, List.cons_append]
          exact hLink
        rcases hRight.value?_next? hInner hLegible.2 (by omega) hRest hLink'
          with ⟨o', hNext⟩
        refine ⟨o', ?_⟩
        rw [hOperand, String.toList_append, List.append_assoc, hReadLeft,
          Scan.value?_chainFrom, hNext]
        cases left.isFilled with
        | false => rfl
        | true =>
            cases right.isFilled with
            | false => rfl
            | true => rfl
      · rw [hOperand] at hBound ⊢
        rcases Scan.value?_link_first hSign hBegins (xs ++ rest) o with
          ⟨f, hLink⟩
        have hLink' :
            ∃ f, Scan.value? Scan.link
                ⟨o, [y, ' '] ++ (right.text.toList ++ rest)⟩ =
              some (.related c, ⟨f, right.text.toList ++ rest⟩) := by
          refine ⟨f, ?_⟩
          rw [hText, List.cons_append]
          exact hLink
        rcases hRight.value?_next? hInner hLegible.2 (by omega) hRest hLink'
          with ⟨o', hNext⟩
        refine ⟨o', ?_⟩
        have hScope : (.scope : Selector E).isFilled = true := rfl
        rw [Scan.value?_chain, Scan.value?_chainFrom, hNext, hScope]
        simp only [List.cons_append, List.head?_cons, Option.bind_some,
          hSign, Option.isSome_some, ↓reduceIte, Bool.true_and]
        cases right.isFilled with
        | false => rfl
        | true => rfl

------------------------------------------------------------
-- Groups
------------------------------------------------------------

omit hInner in
/- A legible chain begins with no blank and no comma. -/
theorem IsChain.head_text
    {s : Selector E}
    (hChain : IsChain P s)
    (hLegible : s.isLegible = true) :
    ∃ x xs, s.text.toList = x :: xs ∧
      Text.isBlank x = false ∧ x ≠ ',' := by
  induction hChain with
  | compound hCompound =>
      rcases hCompound.head_text hLegible with ⟨x, xs, hText, hBegins⟩
      rcases Scan.beginsCompound_spec hBegins with ⟨hUnblank, hComma, _⟩
      exact ⟨x, xs, hText, hUnblank, hComma⟩
  | @related left right c hLeft hRight ih =>
      rw [isLegible, everyPart_relate, Bool.and_eq_true] at hLegible
      rw [text_relate, String.toList_append]
      rcases operandText_cases left c left.text with
        hOperand | ⟨_, y, hSign, hOperand⟩
      · rcases ih hLegible.1 with ⟨x, xs, hText, hUnblank, hComma⟩
        refine ⟨x, xs ++ c.sign.toList ++ right.text.toList, ?_, hUnblank,
          hComma⟩
        rw [hOperand, String.toList_append, hText]
        rfl
      · rw [hOperand]
        exact ⟨y, ' ' :: right.text.toList, rfl,
          isBlank_of_combinator? hSign⟩

omit hInner in
/- So do branches. -/
theorem head_branchesText
    {branch : Selector E}
    (hChain : IsChain P branch)
    (hLegible : branch.isLegible = true)
    (branches : List (Selector E)) :
    ∃ x xs, (branchesText (branch :: branches)).toList = x :: xs ∧
      Text.isBlank x = false := by
  rcases hChain.head_text hLegible with ⟨x, xs, hText, hUnblank, _⟩
  cases branches with
  | nil => exact ⟨x, xs, by rw [branchesText, hText], hUnblank⟩
  | cons next branches =>
      refine ⟨x, xs ++ (", " ++ branchesText (next :: branches)).toList,
        ?_, hUnblank⟩
      rw [branchesText]
      · simp [hText]
      · simp

/- A legible chain is read again as a branch, with a comma behind it. -/
theorem IsChain.value?_branch
    {s : Selector E}
    {rest : List Char}
    {d : Cursor}
    {o : Nat}
    (hChain : IsChain P s)
    (hLegible : s.isLegible = true)
    (hBound : s.text.toList.length ≤ bound)
    (hRest : rest = [] ∨ ∃ more, rest = ',' :: more)
    (hSkip : d.skipBlanks = ⟨o, s.text.toList ++ rest⟩) :
    ∃ o', Scan.value? (Scan.branch nested) d =
      if s.isFilled then some ((s, !rest.isEmpty), ⟨o', rest.tail⟩)
      else none := by
  have hEnds : endsCompound rest = true := by
    rcases hRest with rfl | ⟨more, rfl⟩
    · rfl
    · rfl
  rcases hChain.head_text hLegible with ⟨x, xs, hText, _, hComma⟩
  rcases hChain.value?_chain hInner hLegible hBound hEnds o with
    ⟨e, hRead⟩
  rw [Scan.value?_chainFrom_end hRest] at hRead
  have hHead : (s.text.toList ++ rest).head? = some x := by
    rw [hText]
    rfl
  have hNoComma : (x == ',') = false := by simpa using hComma
  have hChomp :
      ∃ o', Scan.value? (Scan.chomp ",") ⟨e, rest⟩ =
        some (!rest.isEmpty, ⟨o', rest.tail⟩) := by
    rcases hRest with rfl | ⟨more, rfl⟩
    · exact ⟨e, Scan.value?_chomp_comma_end rfl⟩
    · exact ⟨e + 1, Scan.value?_chomp_comma e more⟩
  rcases hChomp with ⟨o', hChomp⟩
  refine ⟨o', ?_⟩
  rw [Scan.branch, Scan.value?_bind, Scan.value?_skipBlanks, hSkip,
    Option.bind_some]
  simp only [Scan.value?_bind, Scan.value?_peek?, hHead, Option.bind_some,
    Option.all_some, hNoComma, Bool.false_eq_true, ↓reduceIte]
  rw [hRead]
  by_cases hFilled : s.isFilled = true
  · rw [if_pos hFilled, if_pos hFilled, Option.bind_some]
    simp only [hChomp]
    rfl
  · rw [if_neg hFilled, if_neg hFilled]
    rfl

/- Legible branches are read again, the first one behind blanks. -/
theorem value?_branchesFrom_text
    {branches : List (Selector E)}
    (hSome : branches ≠ [])
    (hChains : ∀ b ∈ branches, IsChain P b)
    (hLegible : branches.all isLegible = true)
    (hBound : (branchesText branches).toList.length ≤ bound)
    (before : List (Selector E))
    {d : Cursor}
    {o : Nat}
    (hSkip : d.skipBlanks = ⟨o, (branchesText branches).toList⟩) :
    ∃ o', Scan.value? (Scan.branchesFrom nested before) d =
      if branches.all isFilled then some (before ++ branches, ⟨o', []⟩)
      else none := by
  induction branches generalizing before d o with
  | nil => exact absurd rfl hSome
  | cons branch branches ih =>
      rw [List.all_cons, Bool.and_eq_true] at hLegible
      have hChain := hChains branch (by simp)
      cases branches with
      | nil =>
          rw [branchesText] at hBound hSkip
          rcases hChain.value?_branch hInner hLegible.1 hBound (.inl rfl)
            (by simpa using hSkip) with ⟨o', hRead⟩
          refine ⟨o', ?_⟩
          rw [Scan.value?_branchesFrom, hRead]
          by_cases hFilled : branch.isFilled = true
          · simp [hFilled]
          · simp [hFilled]
      | cons next branches =>
          have hText :
              (branchesText (branch :: next :: branches)).toList =
                branch.text.toList ++
                  ',' :: ' ' :: (branchesText (next :: branches)).toList := by
            rw [branchesText]
            · simp
            · simp
          rw [hText, List.length_append, List.length_cons,
            List.length_cons] at hBound
          rw [hText] at hSkip
          rcases hChain.value?_branch hInner hLegible.1 (by omega)
            (.inr ⟨_, rfl⟩) hSkip with ⟨e, hRead⟩
          have hNextChains : ∀ b ∈ next :: branches, IsChain P b :=
            fun b hMem => hChains b (List.mem_cons_of_mem _ hMem)
          have hNextLegible := hLegible.2
          rw [List.all_cons, Bool.and_eq_true] at hNextLegible
          have hSpace :
              (⟨e, ' ' :: (branchesText (next :: branches)).toList⟩ :
                  Cursor).skipBlanks =
                ⟨e + 1, (branchesText (next :: branches)).toList⟩ := by
            rcases head_branchesText (hNextChains next (by simp))
              hNextLegible.1 branches with ⟨x, xs, hFirst, hUnblank⟩
            rw [hFirst]
            exact Cursor.skipBlanks_space hUnblank e xs
          rcases ih (by simp) hNextChains hLegible.2 (by omega)
            (before ++ [branch]) hSpace with ⟨o', hReadMore⟩
          refine ⟨o', ?_⟩
          rw [Scan.value?_branchesFrom, hRead]
          by_cases hFilled : branch.isFilled = true
          · rw [if_pos hFilled, Option.bind_some]
            simp only [List.isEmpty_cons, Bool.not_false, List.tail_cons,
              hReadMore]
            simp [hFilled]
          · rw [if_neg hFilled]
            simp [hFilled]

/- A legible group is read again. -/
theorem IsGroup.value?_group
    {s : Selector E}
    (hGroup : IsGroup P s)
    (hLegible : s.isLegible = true)
    (hBound : s.text.toList.length ≤ bound)
    (o : Nat) :
    s.text.toList ≠ [] ∧
      ∃ o', Scan.value? (Scan.group nested) ⟨o, s.text.toList⟩ =
        if s.isFilled then some (s, ⟨o', []⟩) else none := by
  rcases hGroup with ⟨branches, hSome, hChains, rfl⟩
  rw [isLegible, everyPart_ofBranches] at hLegible
  rw [text_ofBranches] at hBound ⊢
  have hAll : (ofBranches branches).isFilled = branches.all isFilled :=
    everyPart_ofBranches isFilledPart branches
  rcases List.exists_cons_of_ne_nil hSome with ⟨first, others, rfl⟩
  have hFirst := hLegible
  rw [List.all_cons, Bool.and_eq_true] at hFirst
  rcases head_branchesText (hChains first (by simp)) hFirst.1 others with
    ⟨x, xs, hText, hUnblank⟩
  have hSkip :
      (⟨o, (branchesText (first :: others)).toList⟩ : Cursor).skipBlanks =
        ⟨o, (branchesText (first :: others)).toList⟩ := by
    rw [hText]
    exact Cursor.skipBlanks_cons_of_not hUnblank o xs
  rcases value?_branchesFrom_text hInner hSome hChains hLegible hBound []
    hSkip with ⟨o', hRead⟩
  refine ⟨by simp [hText], o', ?_⟩
  rw [Scan.value?_group, hRead, hAll]
  by_cases hFilled : (first :: others).all isFilled = true
  · rw [if_pos hFilled, if_pos hFilled]
    rfl
  · rw [if_neg hFilled, if_neg hFilled]
    rfl

end Inner

/-
  The text of a legible selector that is written is read as
  that selector; where a needle is empty it is not read at
  all.
-/
theorem IsWritten.readsBack_readPart
    {s : Selector E}
    (hWritten : IsWritten s)
    (hLegible : s.isLegible = true) :
    s.text.toList ≠ [] ∧ ReadsBack (Scan.readPart E) s := by
  refine hWritten.induction (P := fun t =>
    t.isLegible = true →
      t.text.toList ≠ [] ∧ ReadsBack (Scan.readPart E) t) ?_ hLegible
  intro t hGroup hLegible
  have hInner :
      ∀ o inner,
        (IsWritten inner ∧ (inner.isLegible = true →
          inner.text.toList ≠ [] ∧ ReadsBack (Scan.readPart E) inner)) →
        inner.isLegible = true →
          inner.text.toList.length < t.text.toList.length →
            inner.text.toList ≠ [] ∧
              ReadsBack (fun part =>
                if part.rest.length < (⟨o, t.text.toList⟩ : Cursor).rest.length
                then Scan.readPart E part
                else .error ⟨.emptySelector, part.offset⟩) inner := by
    intro o inner hWithin hInnerLegible hShorter
    rcases hWithin.2 hInnerLegible with ⟨hSome, hReads⟩
    refine ⟨hSome, ?_⟩
    intro e
    simp only [hShorter, ↓reduceIte]
    exact hReads e
  refine ⟨(hGroup.value?_group (hInner 0) hLegible (Nat.le_refl _) 0).1, ?_⟩
  intro o
  rcases (hGroup.value?_group (hInner o) hLegible (Nat.le_refl _) o).2 with
    ⟨o', hRead⟩
  rw [Scan.toOption_readPart, hRead]
  by_cases hFilled : t.isFilled = true
  · rw [if_pos hFilled, if_pos hFilled]
    rfl
  · rw [if_neg hFilled, if_neg hFilled]
    rfl

end Selector

end TreeQuery
