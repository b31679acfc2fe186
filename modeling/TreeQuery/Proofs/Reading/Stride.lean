import TreeQuery.Proofs.Reading.Quote

/-
  Brackets around what is read.

  Readers go on by characters that mean nothing to brackets, by
  escapes, and by texts that stand as a whole between brackets.
  Such a text is passed over where the end of an outer bracket
  is looked for, and so is a quoted text.

  Key definitions include:
    * `Text.Strides`
    * `Cursor.Passes`
    * `Scan.Strides`
    * `Scan.Passes`

  Main statements:
    * `Text.Strides.spans`
    * `Scan.Strides.passes`
    * `Scan.strides_attributeName`
    * `Scan.passes_quoted`
    * `Scan.quoted_of_argument`
-/

namespace TreeQuery

------------------------------------------------------------
-- Steps over a Text
------------------------------------------------------------

/- These brackets and no others. -/
def onlyBrackets (opening closing : Char) : Char → Char → Bool :=
  fun first last => first == opening && last == closing

/-
  The second text is left of the first one behind characters
  that mean nothing to brackets, escapes, and texts that stand
  as a whole between some of the given brackets.
-/
inductive Text.Strides
    (brackets : Char → Char → Bool) : List Char → List Char → Prop where
| here (rest : List Char) : Strides brackets rest rest
| plain {x : Char} {xs rest : List Char}
    (hPlain : x ∉ specialChars)
    (hRest : Strides brackets xs rest) :
    Strides brackets (x :: xs) rest
| escape {d : Char} {cs behind rest : List Char}
    (hEscape : readEscape? cs = some (d, behind))
    (hRest : Strides brackets behind rest) :
    Strides brackets ('\\' :: cs) rest
| enclosed {opening closing : Char} {cs content behind rest : List Char}
    (hBrackets : brackets opening closing = true)
    (hRead :
      readBalanced? opening closing 0 none cs = some (content, behind))
    (hRest : Strides brackets behind rest) :
    Strides brackets (opening :: cs) rest

namespace Text.Strides

variable {brackets : Char → Char → Bool}

theorem trans
    {cs behind rest : List Char}
    (hFirst : Strides brackets cs behind)
    (hLast : Strides brackets behind rest) :
    Strides brackets cs rest := by
  induction hFirst with
  | here => exact hLast
  | plain hPlain _ ih => exact .plain hPlain (ih hLast)
  | escape hEscape _ ih => exact .escape hEscape (ih hLast)
  | enclosed hBrackets hRead _ ih =>
      exact .enclosed hBrackets hRead (ih hLast)

theorem of_forall
    {xs : List Char}
    (hPlain : ∀ x ∈ xs, x ∉ specialChars)
    (rest : List Char) :
    Strides brackets (xs ++ rest) rest := by
  induction xs with
  | nil => exact .here rest
  | cons x xs ih =>
      exact .plain (hPlain x (by simp)) (ih fun y hMem =>
        hPlain y (by simp [hMem]))

/- Such a text is passed over between the only brackets it has. -/
theorem spans
    {opening closing : Char}
    (hBrackets : areBrackets opening closing = true)
    {cs rest : List Char}
    (h : Strides (onlyBrackets opening closing) cs rest) :
    ∃ text, cs = text ++ rest ∧ Spans opening closing text := by
  induction h with
  | here rest => exact ⟨[], rfl, spans_nil⟩
  | @plain x xs rest hPlain _ ih =>
      rcases ih with ⟨text, rfl, hText⟩
      have hFirst : Spans opening closing [x] :=
        spans_singleton (not_special_of_areBrackets hBrackets hPlain)
      exact ⟨x :: text, rfl, hFirst.append hText⟩
  | escape hEscape _ ih =>
      rcases exists_of_readEscape? hEscape with ⟨x, xs, rfl, hTail⟩
      rcases ih with ⟨text, rfl, hText⟩
      have hPlain : Spans opening closing xs := by
        refine spans_of_forall fun y hMem => ?_
        exact not_special_of_areBrackets hBrackets
          (not_special_of_isEscapeTail (hTail y hMem))
      refine ⟨['\\', x] ++ xs ++ text, by simp, ?_⟩
      exact ((spans_escape x).append hPlain).append hText
  | enclosed hOnly hRead _ ih =>
      simp only [onlyBrackets, Bool.and_eq_true, beq_iff_eq] at hOnly
      rw [hOnly.1, hOnly.2] at hRead
      rw [hOnly.1]
      rcases ih with ⟨text, rfl, hText⟩
      have hSides :
          opening ∉ ['\\', '"', '\''] ∧
            closing ∉ ['\\', '"', '\'', opening] := by
        rcases cases_of_areBrackets hBrackets with ⟨rfl, rfl⟩ | ⟨rfl, rfl⟩
        · decide
        · decide
      have hWhole :=
        (spans_of_readBalanced? hRead).enclose hSides.1 hSides.2
      refine ⟨_, ?_, hWhole.append hText⟩
      rw [readBalanced?_split hRead]
      simp

end Text.Strides

/- A name is read in such steps. -/
theorem strides_of_readIdentifier?
    {brackets : Char → Char → Bool}
    {cs name rest : List Char}
    (h : readIdentifier? cs = some (name, rest)) :
    Text.Strides brackets cs rest := by
  fun_induction readIdentifier? cs generalizing name with
  | case1 =>
      cases h
      exact .here []
  | case2 cs hEscape => simp at h
  | case3 cs d after hEscape _ ih =>
      rcases prepend_eq_some_iff.1 h with ⟨tail, hRead, rfl⟩
      exact .escape hEscape (ih hRead)
  | case4 c cs _ hChar ih =>
      rcases prepend_eq_some_iff.1 h with ⟨tail, hRead, rfl⟩
      have hOther := not_special_of_isIdentifierChar hChar
      refine .plain (fun hMem => hOther ?_) (ih hRead)
      exact List.mem_append_left
        ['#', '.', ':', '*', '|', ',', '>', '+', '~', '^', '$', '!', '=',
          ' '] hMem
  | case5 c cs _ hChar =>
      cases h
      exact .here (c :: cs)

/- What stands before the second text is passed over. -/
def Cursor.Passes (opening closing : Char) (c d : Cursor) : Prop :=
  ∃ text, c.rest = text ++ d.rest ∧ Spans opening closing text

namespace Cursor.Passes

variable {opening closing : Char} {c d e : Cursor}

theorem refl (c : Cursor) : Passes opening closing c c :=
  ⟨[], rfl, spans_nil⟩

theorem trans
    (hFirst : Passes opening closing c d)
    (hLast : Passes opening closing d e) :
    Passes opening closing c e := by
  rcases hFirst with ⟨xs, hRest, hLeft⟩
  rcases hLast with ⟨ys, hRest', hRight⟩
  refine ⟨xs ++ ys, ?_, hLeft.append hRight⟩
  rw [hRest, hRest', List.append_assoc]

/- What is passed over is so with a rest that is passed over. -/
theorem spans_of_rest
    (h : Passes opening closing c d)
    (hRest : Spans opening closing d.rest) :
    Spans opening closing c.rest := by
  rcases h with ⟨text, hSplit, hText⟩
  rw [hSplit]
  exact hText.append hRest

/- Behind what is passed over the rest is passed over alone. -/
theorem spans
    (h : Passes opening closing c d)
    (hSpans : Spans opening closing c.rest) :
    Spans opening closing d.rest := by
  rcases h with ⟨text, hRest, hText⟩
  rw [hRest] at hSpans
  exact hText.of_append hSpans

end Cursor.Passes

namespace Scan

variable {α β : Type}
variable {opening closing : Char}
variable {brackets : Char → Char → Bool}

/- The reader leaves brackets as it finds them. -/
def Strides (brackets : Char → Char → Bool) (act : Scan α) : Prop :=
  ∀ (c d : Cursor) (a : α), act c = .ok a d →
    Text.Strides brackets c.rest d.rest

/- What the reader reads is passed over. -/
def Passes (opening closing : Char) (act : Scan α) : Prop :=
  ∀ (c d : Cursor) (a : α), act c = .ok a d → c.Passes opening closing d

theorem Strides.passes
    {act : Scan α}
    (hAct : Strides (onlyBrackets opening closing) act)
    (hBrackets : areBrackets opening closing = true) :
    Passes opening closing act :=
  fun c d a h => (hAct c d a h).spans hBrackets

theorem Strides.bind
    {act : Scan α}
    {next : α → Scan β}
    (hAct : Strides brackets act)
    (hNext : ∀ a, Strides brackets (next a)) :
    Strides brackets (act >>= next) := by
  intro c e b h
  rcases bind_eq_ok_iff.1 h with ⟨a, d, hFirst, hLast⟩
  exact (hAct c d a hFirst).trans (hNext a d e b hLast)

theorem Strides.map
    {act : Scan α}
    (f : α → β)
    (hAct : Strides brackets act) :
    Strides brackets (f <$> act) := by
  intro c d b h
  rcases map_eq_ok_iff.1 h with ⟨a, hFirst, _⟩
  exact hAct c d a hFirst

theorem Strides.ite
    {p : Prop}
    [Decidable p]
    {act other : Scan α}
    (hAct : Strides brackets act)
    (hOther : Strides brackets other) :
    Strides brackets (if p then act else other) := by
  split
  · exact hAct
  · exact hOther

theorem strides_pure (a : α) : Strides brackets (pure a : Scan α) := by
  intro c d b h
  rcases pure_eq_ok_iff.1 h with ⟨_, rfl⟩
  exact .here c.rest

theorem strides_skipBlanks : Strides brackets skipBlanks := by
  rintro c d spaced h
  cases h
  have hSplit : c.rest.takeWhile Text.isBlank ++ c.skipBlanks.rest = c.rest :=
    List.takeWhile_append_dropWhile
  have hPlain : ∀ x ∈ c.rest.takeWhile Text.isBlank, x ∉ specialChars := by
    intro x hMem
    have hBlank : Text.isBlank x = true := List.mem_takeWhile_imp hMem
    exact not_special_of_isEscapeTail (by simp [isEscapeTail, hBlank])
  rw [← hSplit]
  exact .of_forall hPlain c.skipBlanks.rest

theorem strides_identifier : Strides brackets identifier := by
  intro c d name h
  unfold identifier at h
  split at h
  · simp at h
  · next hRead =>
      cases h
      exact strides_of_readIdentifier? hRead
  · simp at h

/- A sign is plain, since no bracket and no quote is like it. -/
theorem strides_chomp
    {text : String}
    (hText : text.toList.all fun x =>
      specialChars.all fun y =>
        x.toLower != y.toLower) :
    Strides brackets (chomp text) := by
  intro c d found h
  unfold chomp at h
  split at h
  · next e hRead =>
      cases h
      unfold Cursor.chomp? at hRead
      split at hRead
      · next head tail hCut =>
          split at hRead
          · next hEqual =>
              cases hRead
              rw [← (Text.cutAtByte?_eq_some_iff.1 hCut).1]
              refine .of_forall (fun y hMem hSpecial => ?_) tail
              have hLower : y.toLower ∈ text.toList.map Char.toLower := by
                have hSame := Text.equalIgnoringCase_iff.1 hEqual
                rw [← Text.asciiLower, ← hSame]
                exact List.mem_map_of_mem hMem
              rcases List.mem_map.1 hLower with ⟨x, hX, hSame⟩
              have hOther :=
                List.all_eq_true.1 (List.all_eq_true.1 hText x hX) y hSpecial
              simp [hSame] at hOther
          · simp at hRead
      · simp at hRead
  · cases h
    exact .here c.rest

theorem strides_operator? :
    Strides brackets (operator? AttributeOperator.all) := by
  have hSigns :
      ∀ op ∈ AttributeOperator.all, Strides brackets (chomp op.sign) := by
    have hAll :
        AttributeOperator.all.all fun op =>
          op.sign.toList.all fun x =>
            specialChars.all fun y =>
              x.toLower != y.toLower := by
      decide
    exact fun op hMem => strides_chomp (List.all_eq_true.1 hAll op hMem)
  generalize AttributeOperator.all = ops at hSigns
  induction ops with
  | nil => exact strides_pure none
  | cons op ops ih =>
      refine (hSigns op (by simp)).bind fun found => ?_
      split
      · exact strides_pure _
      · exact ih fun op hMem => hSigns op (by simp [hMem])

theorem strides_nameParts (name : String) :
    Strides brackets (nameParts name) := by
  intro c d whole h
  fun_induction nameParts name c with
  | case1 name c x hNext hPeek hChar part e hRead _ _ ih =>
      rcases c with ⟨o, rest⟩
      cases rest with
      | nil => simp [Cursor.peek?] at hPeek
      | cons y ys =>
          cases hPeek
          exact .plain (by decide)
            ((strides_identifier _ _ _ hRead).trans (ih h))
  | case2 name c x hPeek hNext hChar fault e hRead => simp at h
  | case3 name c x hPeek hNext hChar =>
      cases h
      exact .here _
  | case4 name c hOther =>
      cases h
      exact .here _

theorem strides_attributeName : Strides brackets attributeName :=
  strides_identifier.bind strides_nameParts

------------------------------------------------------------
-- Quoted Values
------------------------------------------------------------

theorem exists_of_peek?
    {p : Char → Bool}
    {c : Cursor}
    (h : c.peek?.any p = true) :
    ∃ x xs, c.rest = x :: xs ∧ p x = true := by
  rcases c with ⟨o, rest⟩
  cases rest with
  | nil => simp [Cursor.peek?] at h
  | cons x xs => exact ⟨x, xs, rfl, by simpa [Cursor.peek?] using h⟩

section Quotes

variable
  {q : Char}
  (hQuote : isQuote q = true)
  {cs : List Char}
  {c : Cursor}
  (hCons : c.rest = q :: cs)

include hQuote hCons

/- Whether escapes are resolved or not, the same text is read. -/
theorem quoted_eq_ok_iff
    (resolve : Bool)
    {d : Cursor} :
    (∃ value, quoted resolve c = .ok value d) ↔
      ∃ rest, (readQuotedRaw q cs).rest? = some rest ∧
        d = c.moveTo rest := by
  have hSame :
      (if resolve then readQuoted q cs else readQuotedRaw q cs).rest? =
        (readQuotedRaw q cs).rest? := by
    cases resolve with
    | false => rfl
    | true => exact readQuoted_rest? hQuote cs
  rw [← hSame]
  unfold quoted
  simp only [hCons, hQuote, ↓reduceIte]
  cases if resolve then readQuoted q cs else readQuotedRaw q cs with
  | closed content rest =>
      simp [QuotedText.rest?, eq_comm]
  | endsInside => simp [QuotedText.rest?]
  | endsInEscape => simp [QuotedText.rest?]

/- Between brackets a quoted text is passed over. -/
theorem passes_quoted
    {opening closing : Char}
    {resolve : Bool}
    {value : String}
    {d : Cursor}
    (h : quoted resolve c = .ok value d) :
    c.Passes opening closing d := by
  rcases (quoted_eq_ok_iff hQuote hCons resolve).1 ⟨value, h⟩ with
    ⟨rest, hRest, rfl⟩
  rcases QuotedText.rest?_eq_some_iff.1 hRest with ⟨content, hRead⟩
  refine ⟨_, ?_, spans_of_readQuotedRaw hQuote hRead⟩
  rw [hCons, readQuotedRaw_split hRead]
  simp [Cursor.moveTo]

/- Between square brackets a value in quotes ends before the bracket. -/
theorem quoted_of_spans
    {opening closing : Char}
    (hClosing : closing ∉ ['\\', '"', '\'', opening])
    (hSpans : Spans opening closing c.rest)
    (resolve : Bool) :
    ∃ value d, quoted resolve c = .ok value d := by
  rw [hCons] at hSpans
  rcases readQuotedRaw_of_spans hQuote hClosing hSpans with
    ⟨content, rest, hRead⟩
  rcases (quoted_eq_ok_iff hQuote hCons resolve).2
    ⟨rest, by rw [hRead]; rfl, rfl⟩ with ⟨value, hValue⟩
  exact ⟨value, _, hValue⟩

/- So does an argument in quotes, without the blanks around it too. -/
theorem quoted_of_argument
    {name : String}
    {outer d : Cursor}
    (hRead : argument name outer = .ok c d)
    (resolve : Bool) :
    ∃ value e, quoted resolve c = .ok value e := by
  rcases argument_eq_ok_iff.1 hRead with
    ⟨text, hSpans, hSome, _, _, rfl⟩
  have hBlanks : Spans '(' ')' (text.takeWhile Text.isBlank) :=
    spans_blanks rfl (List.all_eq_true.1 List.all_takeWhile)
  have hSplit : text.takeWhile Text.isBlank ++ Text.trimStart text = text :=
    List.takeWhile_append_dropWhile
  rw [← hSplit] at hSpans
  have hStart := hBlanks.of_append hSpans
  have hTrim : Text.trimEnd (Text.trimStart text) = q :: cs := hCons
  have hPrefix := Text.trimEnd_prefix (Text.trimStart text)
  rw [hTrim] at hPrefix
  rcases hPrefix with ⟨after, hAfter⟩
  rw [← hAfter, List.cons_append] at hStart hTrim
  rcases readQuotedRaw_of_spans hQuote (by decide) hStart with
    ⟨content, rest, hClosed⟩
  rw [readQuotedRaw_split hClosed, trimEnd_quoted hQuote] at hTrim
  have hAgain := readQuotedRaw_resume hQuote hClosed (Text.trimEnd rest)
  rw [(List.cons.inj hTrim).2] at hAgain
  rcases (quoted_eq_ok_iff hQuote hCons resolve).2
    ⟨_, by rw [hAgain]; rfl, rfl⟩ with ⟨value, hValue⟩
  exact ⟨value, _, hValue⟩

end Quotes

end Scan

end TreeQuery
