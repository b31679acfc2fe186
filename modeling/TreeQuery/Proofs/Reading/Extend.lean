import TreeQuery.Proofs.Reading.Part
import TreeQuery.Proofs.Reading.Quote

/-
  Texts that go on.

  A separator, perhaps behind blanks, ends every token that
  can stand at the end of a part.  So a part is read as before
  from a text that goes on with one.  Only an escape at the
  end of the text may take a blank from what comes then.

  Key definitions include:
    * `endsToken`
    * `DropsBlanks`
    * `GoesOn`
    * `Continues`
    * `Cursor.Extended`
    * `Scan.Extends`

  Main statements:
    * `Continues.readIdentifier?`
    * `Scan.value?_partWith_extend`
    * `Scan.value?_part?_extend`
-/

namespace TreeQuery

variable {E : Engine}

------------------------------------------------------------
-- Ends of Tokens
------------------------------------------------------------

/-
  A token before the text ends there: the text begins with a
  separator, with only blanks before it.
-/
def endsToken : List Char → Bool
| [] => true
| x :: xs =>
    [':', ',', '>', '+', '~'].contains x
      || Text.isBlank x && !isIdentifierChar x && endsToken xs

/- What ends a token is no part of one. -/
theorem not_token_of_endsToken
    {x : Char}
    {xs : List Char}
    (h : endsToken (x :: xs) = true) :
    isIdentifierChar x = false ∧ Text.isHexDigit x = false ∧
      x ∉ ['\\', '|', '*'] := by
  have hStart :
      ([':', ',', '>', '+', '~'].contains x
        || Text.isBlank x && !isIdentifierChar x) = true := by
    simp only [endsToken, Bool.or_eq_true, Bool.and_eq_true] at h ⊢
    rcases h with hSign | hBlank
    · exact .inl hSign
    · exact .inr hBlank.1
  have hAscii : x.toNat < 128 := by
    simp only [Bool.or_eq_true, Bool.and_eq_true, List.contains_eq_mem,
      decide_eq_true_eq] at hStart
    rcases hStart with hSign | hBlank
    · have hAll : ∀ x ∈ [':', ',', '>', '+', '~'], x.toNat < 128 :=
        List.all_iff_forall_prop.1 (by decide)
      exact hAll x hSign
    · have hChar := hBlank.2
      simp only [isIdentifierChar, Bool.not_eq_true', Bool.or_eq_false_iff,
        decide_eq_false_iff_not] at hChar
      omega
  have hAll :
      (List.range 128).all fun n =>
        !([':', ',', '>', '+', '~'].contains (Char.ofNat n)
            || Text.isBlank (Char.ofNat n)
              && !isIdentifierChar (Char.ofNat n))
          || !isIdentifierChar (Char.ofNat n)
            && !Text.isHexDigit (Char.ofNat n)
            && !(['\\', '|', '*'].contains (Char.ofNat n)) := by
    decide +kernel
  have hCase :=
    Text.forall_ascii
      (p := fun x =>
        !([':', ',', '>', '+', '~'].contains x
            || Text.isBlank x && !isIdentifierChar x)
          || !isIdentifierChar x && !Text.isHexDigit x
            && !(['\\', '|', '*'].contains x))
      hAll hAscii
  rw [hStart] at hCase
  simpa [and_assoc] using hCase

/- The second text is the first without some blanks at its start. -/
def DropsBlanks (more rest : List Char) : Prop :=
  ∃ blanks, more = blanks ++ rest ∧
    ∀ x ∈ blanks, Text.isBlank x = true

namespace DropsBlanks

variable {more rest : List Char}

theorem refl (more : List Char) : DropsBlanks more more :=
  ⟨[], rfl, by simp⟩

/- No more blanks are gone than stand before another character. -/
theorem exists_of_unblank
    {x : Char}
    {blanks after : List Char}
    (hUnblank : Text.isBlank x = false)
    (h : DropsBlanks (blanks ++ x :: rest) after) :
    ∃ left, left <:+ blanks ∧ after = left ++ x :: rest := by
  rcases h with ⟨dropped, hSplit, hDropped⟩
  rcases List.append_eq_append_iff.1 hSplit with
    ⟨front, rfl, hRest⟩ | ⟨left, rfl, rfl⟩
  · cases front with
    | nil => exact ⟨[], List.nil_suffix, hRest.symm⟩
    | cons y front =>
        cases hRest
        have hBlank := hDropped x (by simp)
        rw [hUnblank] at hBlank
        exact absurd hBlank (by simp)
  · exact ⟨left, List.suffix_append dropped left, rfl⟩

/- What is left ends a token too. -/
theorem endsToken
    (h : DropsBlanks more rest)
    (hMore : endsToken more = true) :
    endsToken rest = true := by
  rcases h with ⟨blanks, rfl, hBlanks⟩
  induction blanks with
  | nil => exact hMore
  | cons x xs ih =>
      have hSigns :
          ∀ x ∈ [':', ',', '>', '+', '~'], Text.isBlank x = false :=
        List.all_iff_forall_prop.1 (by decide)
      have hBlank := hBlanks x (by simp)
      have hOther : x ∉ [':', ',', '>', '+', '~'] := by
        intro hSign
        simp [hSigns x hSign] at hBlank
      have hRest : TreeQuery.endsToken (xs ++ rest) = true := by
        have hSplit :
            (Text.isBlank x = true ∧ isIdentifierChar x = false) ∧
              TreeQuery.endsToken (xs ++ rest) = true := by
          simpa [TreeQuery.endsToken, hOther] using hMore
        exact hSplit.2
      exact ih (fun y hMem => hBlanks y (by simp [hMem])) hRest

end DropsBlanks

/-
  A text and the same text going on with more.  At its end
  blanks may be gone from what comes then.
-/
inductive GoesOn (more : List Char) : List Char → List Char → Prop where
| inside {rest : List Char} (hSome : rest ≠ []) :
    GoesOn more rest (rest ++ more)
| atEnd {after : List Char} (hAfter : DropsBlanks more after) :
    GoesOn more [] after

theorem goesOn_append (more rest : List Char) :
    GoesOn more rest (rest ++ more) := by
  cases rest with
  | nil => exact .atEnd (.refl more)
  | cons x xs => exact .inside (by simp)

theorem goesOn_cons
    {more xs rest : List Char}
    {x : Char}
    (h : GoesOn more (x :: xs) rest) :
    rest = x :: (xs ++ more) := by
  cases h with
  | inside hSome => rfl

------------------------------------------------------------
-- Escapes and Names
------------------------------------------------------------

/- What stands before a character outside `p` ends there at last. -/
theorem takeWhile_take_append
    {p : Char → Bool}
    {x : Char}
    (hStop : p x = false)
    (n : Nat)
    (cs more : List Char) :
    ((cs ++ x :: more).take n).takeWhile p = (cs.take n).takeWhile p := by
  induction cs generalizing n with
  | nil =>
      cases n with
      | zero => rfl
      | succ n => simp [hStop]
  | cons c cs ih =>
      cases n with
      | zero => rfl
      | succ n =>
          rw [List.cons_append, List.take_succ_cons, List.take_succ_cons,
            List.takeWhile_cons, List.takeWhile_cons, ih]

/- The blank behind an escape may be the first one of what comes. -/
theorem goesOn_dropBlank (more cs : List Char) :
    GoesOn more (Text.dropBlank cs) (Text.dropBlank (cs ++ more)) := by
  cases cs with
  | nil =>
      refine .atEnd ?_
      cases more with
      | nil => exact .refl []
      | cons x xs =>
          by_cases hBlank : Text.isBlank x = true
          · refine ⟨[x], ?_, by simp [hBlank]⟩
            simp [Text.dropBlank, hBlank]
          · refine ⟨[], ?_, by simp⟩
            simp [Text.dropBlank, hBlank]
  | cons c cs =>
      by_cases hBlank : Text.isBlank c = true
      · simp only [Text.dropBlank, List.cons_append, hBlank, ↓reduceIte]
        exact goesOn_append more cs
      · simp only [Text.dropBlank, List.cons_append, hBlank,
          Bool.false_eq_true, ↓reduceIte]
        exact goesOn_append more (c :: cs)

section Digits

variable {more : List Char} (hMore : more.head?.any Text.isHexDigit = false)

include hMore

/- The digits of an escape are the same. -/
theorem takeWhile_isHexDigit_append (cs : List Char) :
    ((cs ++ more).take 6).takeWhile Text.isHexDigit =
      (cs.take 6).takeWhile Text.isHexDigit := by
  cases more with
  | nil => rw [List.append_nil]
  | cons y ys => exact takeWhile_take_append hMore 6 cs ys

omit hMore in
theorem length_takeWhile_isHexDigit_le (cs : List Char) :
    ((cs.take 6).takeWhile Text.isHexDigit).length ≤ cs.length := by
  have hPrefix :=
    (List.takeWhile_prefix (l := cs.take 6) Text.isHexDigit).length_le
  simp only [List.length_take] at hPrefix
  omega

/- An escape is the same where the text goes on with no digit. -/
theorem readEscape?_goesOn
    {cs rest : List Char}
    {x : Char}
    (h : Text.readEscape? cs = some (x, rest)) :
    ∃ rest', GoesOn more rest rest' ∧
      Text.readEscape? (cs ++ more) = some (x, rest') := by
  unfold Text.readEscape? at h ⊢
  simp only [takeWhile_isHexDigit_append hMore] at h ⊢
  by_cases hNone : ((cs.take 6).takeWhile Text.isHexDigit).isEmpty = true
  · rw [if_pos hNone] at h ⊢
    cases cs with
    | nil => simp at h
    | cons c cs =>
        simp only [Option.some.injEq, Prod.mk.injEq] at h
        rcases h with ⟨rfl, rfl⟩
        exact ⟨_, goesOn_append more cs, rfl⟩
  · rw [if_neg hNone] at h ⊢
    simp only [Option.some.injEq, Prod.mk.injEq] at h
    rcases h with ⟨rfl, rfl⟩
    rw [List.drop_append_of_le_length (length_takeWhile_isHexDigit_le cs)]
    exact ⟨_, goesOn_dropBlank more _, rfl⟩

end Digits

/-
  At the end of the text the escape itself decides whether it
  takes a blank from what comes then.
-/
theorem readEscape?_atEnd
    {cs : List Char}
    {x : Char}
    (h : Text.readEscape? cs = some (x, [])) :
    ∃ takes : Bool, ∀ {more : List Char},
      more.head?.any Text.isHexDigit = false →
        Text.readEscape? (cs ++ more) =
          some (x, if takes then Text.dropBlank more else more) := by
  by_cases hNone : ((cs.take 6).takeWhile Text.isHexDigit).isEmpty = true
  · refine ⟨false, fun {more} hMore => ?_⟩
    unfold Text.readEscape? at h ⊢
    simp only [takeWhile_isHexDigit_append hMore, if_pos hNone] at h ⊢
    cases cs with
    | nil => simp at h
    | cons c cs =>
        simp only [Option.some.injEq, Prod.mk.injEq] at h
        rcases h with ⟨rfl, rfl⟩
        rfl
  · -- Behind the digits nothing is left, or one blank.
    have hLength := length_takeWhile_isHexDigit_le cs
    have hRead :
        ∀ {more : List Char}, more.head?.any Text.isHexDigit = false →
          Text.readEscape? (cs ++ more) =
            some (Text.namedChar ((cs.take 6).takeWhile Text.isHexDigit),
              Text.dropBlank
                (cs.drop ((cs.take 6).takeWhile Text.isHexDigit).length ++
                  more)) := by
      intro more hMore
      unfold Text.readEscape?
      simp only [takeWhile_isHexDigit_append hMore, if_neg hNone]
      rw [List.drop_append_of_le_length hLength]
    have hAlone := @hRead [] rfl
    rw [List.append_nil, List.append_nil, h, Option.some.injEq,
      Prod.mk.injEq] at hAlone
    rcases hAlone with ⟨rfl, hEnd⟩
    generalize cs.drop ((cs.take 6).takeWhile Text.isHexDigit).length =
      left at hRead hEnd
    cases left with
    | nil => exact ⟨true, fun hMore => by simpa using hRead hMore⟩
    | cons y ys =>
        by_cases hBlank : Text.isBlank y = true
        · rw [Text.dropBlank, if_pos hBlank] at hEnd
          refine ⟨false, fun hMore => ?_⟩
          rw [hRead hMore, ← hEnd]
          simp [Text.dropBlank, hBlank]
        · simp [Text.dropBlank, hBlank] at hEnd

/- No name begins with what ends one. -/
theorem readIdentifier?_of_endsToken
    {after : List Char}
    (hAfter : endsToken after = true) :
    readIdentifier? after = some ([], after) := by
  have hEnds : endsName after = true := by
    cases after with
    | nil => rfl
    | cons x xs =>
        rcases not_token_of_endsToken hAfter with ⟨hChar, _, hSigns⟩
        have hSlash : x ≠ '\\' := by
          rintro rfl
          simp at hSigns
        simp [endsName, hChar, hSlash]
  have hNone : ∀ c ∈ ([] : List Char), isIdentifierChar c = true := by
    simp
  exact readIdentifier?_append hNone hEnds

------------------------------------------------------------
-- Readers That Keep to a Text
------------------------------------------------------------

/-
  `Goes` relates what is left of a text to what is left of the
  same text going on with `more`.  Readers keep to it: from
  related texts they go on to related texts.  At the end of
  the text blanks may be gone from what comes then.
-/
structure Continues
    (more : List Char)
    (Goes : List Char → List Char → Prop) : Prop where
  cons {x : Char} {xs rest : List Char} (h : Goes (x :: xs) rest) :
    rest = x :: (xs ++ more)
  tail {x : Char} {xs rest : List Char}
    (h : Goes (x :: xs) rest)
    (hSlash : x ≠ '\\') :
    Goes xs (xs ++ more)
  behind {opening closing : Char} {xs rest content behind : List Char}
    (h : Goes (opening :: xs) rest)
    (hBrackets : areBrackets opening closing = true)
    (hRead :
      readBalanced? opening closing 0 none xs = some (content, behind)) :
    Goes behind (behind ++ more)
  escape {xs rest left : List Char} {x : Char}
    (h : Goes ('\\' :: xs) rest)
    (hRead : Text.readEscape? xs = some (x, left)) :
    ∃ left', Goes left left' ∧
      Text.readEscape? (xs ++ more) = some (x, left')
  atEnd {rest : List Char} (h : Goes [] rest) : DropsBlanks more rest
  noName {rest : List Char} (h : Goes [] rest) :
    readIdentifier? rest = some ([], rest)
  noSign {x : Char} {xs : List Char} (h : Goes [] (x :: xs)) :
    x ∉ ['|', '*']

/- So it is where the text goes on with what ends tokens. -/
theorem continues_goesOn
    {more : List Char}
    (hMore : endsToken more = true) :
    Continues more (GoesOn more) where
  cons h := goesOn_cons h
  tail _ _ := goesOn_append more _
  behind _ _ _ := goesOn_append more _
  escape _ hRead := by
    have hDigit : more.head?.any Text.isHexDigit = false := by
      cases more with
      | nil => rfl
      | cons y ys => exact (not_token_of_endsToken hMore).2.1
    exact readEscape?_goesOn hDigit hRead
  atEnd h := by
    cases h with
    | inside hSome => exact absurd rfl hSome
    | atEnd hAfter => exact hAfter
  noName h := by
    cases h with
    | inside hSome => exact absurd rfl hSome
    | atEnd hAfter =>
        exact readIdentifier?_of_endsToken (hAfter.endsToken hMore)
  noSign h := by
    rcases h with hSome | hAfter
    · exact absurd rfl hSome
    · have hNone := (not_token_of_endsToken (hAfter.endsToken hMore)).2.2
      exact fun hMem => hNone (List.mem_cons_of_mem '\\' hMem)

/-
  A name is the same where the text goes on.  An escape at the
  end of the text is followed by what it left of `more`, which
  is why the text that goes on varies in the induction.
-/
theorem Continues.readIdentifier?
    {more : List Char}
    {Goes : List Char → List Char → Prop}
    (hGoes : Continues more Goes)
    {cs cs' name rest : List Char}
    (hText : Goes cs cs')
    (h : readIdentifier? cs = some (name, rest)) :
    ∃ rest', Goes rest rest' ∧
      TreeQuery.readIdentifier? cs' = some (name, rest') := by
  fun_induction TreeQuery.readIdentifier? cs
    generalizing cs' name rest with
  | case1 =>
      cases h
      exact ⟨_, hText, hGoes.noName hText⟩
  | case2 cs hEscape => simp at h
  | case3 cs d after hEscape _ ih =>
      rcases prepend_eq_some_iff.1 h with ⟨tail, hRead, rfl⟩
      rcases hGoes.escape hText hEscape with ⟨after', hAfter, hEscape'⟩
      rcases ih hAfter hRead with ⟨rest', hRest, hRead'⟩
      refine ⟨rest', hRest, ?_⟩
      rw [hGoes.cons hText, readIdentifier?_escape hEscape', hRead']
      rfl
  | case4 c cs hSlash hChar ih =>
      rcases prepend_eq_some_iff.1 h with ⟨tail, hRead, rfl⟩
      rcases ih (hGoes.tail hText hSlash) hRead with ⟨rest', hRest, hRead'⟩
      refine ⟨rest', hRest, ?_⟩
      rw [hGoes.cons hText, readIdentifier?.eq_3 _ _ hSlash, if_pos hChar,
        hRead']
      rfl
  | case5 c cs hSlash hChar =>
      cases h
      refine ⟨_, hText, ?_⟩
      rw [hGoes.cons hText, readIdentifier?.eq_3 _ _ hSlash, if_neg hChar]

------------------------------------------------------------
-- Cursors
------------------------------------------------------------

namespace Cursor

variable {more : List Char} {Goes : List Char → List Char → Prop}

/-
  The second cursor stands where the first one does, in a text
  that goes on.
-/
structure Extended
    (Goes : List Char → List Char → Prop)
    (c c' : Cursor) : Prop where
  text : Goes c.rest c'.rest
  offset : c.rest ≠ [] → c'.offset = c.offset

/- A cursor goes on in the text that it stands in. -/
theorem extended_append (more : List Char) (o : Nat) (rest : List Char) :
    Extended (GoesOn more) ⟨o, rest⟩ ⟨o, rest ++ more⟩ :=
  ⟨goesOn_append more rest, fun _ => rfl⟩

section Texts

variable
  (hCons :
    ∀ {x : Char} {xs rest : List Char}, Goes (x :: xs) rest →
      rest = x :: (xs ++ more))

include hCons

/- Before the end of the text the text goes on where it does. -/
theorem Extended.eq_of_ne_nil
    {c c' : Cursor}
    (h : Extended Goes c c')
    (hSome : c.rest ≠ []) :
    c' = ⟨c.offset, c.rest ++ more⟩ := by
  rcases c with ⟨o, rest⟩
  rcases c' with ⟨o', rest'⟩
  cases rest with
  | nil => exact absurd rfl hSome
  | cons x xs =>
      cases hCons h.text
      cases h.offset hSome
      rfl

theorem Extended.cons
    {o : Nat}
    {x : Char}
    {xs : List Char}
    {c' : Cursor}
    (h : Extended Goes ⟨o, x :: xs⟩ c') :
    c' = ⟨o, x :: (xs ++ more)⟩ :=
  h.eq_of_ne_nil hCons (by simp)

/- Moving on does not depend on what the text goes on with. -/
theorem Extended.moveTo
    {c c' : Cursor}
    {rest rest' : List Char}
    (h : Extended Goes c c')
    (hSuffix : rest <:+ c.rest)
    (hRest : Goes rest rest') :
    Extended Goes (c.moveTo rest) (c'.moveTo rest') := by
  refine ⟨hRest, fun hSome => ?_⟩
  have hSome' : c.rest ≠ [] := by
    intro hNil
    rw [hNil] at hSuffix
    exact hSome (List.suffix_nil.1 hSuffix)
  cases rest with
  | nil => exact absurd rfl hSome
  | cons x xs =>
      rw [hCons hRest, h.eq_of_ne_nil hCons hSome', ← List.cons_append]
      simp only [Cursor.moveTo, Text.byteLength_append,
        Nat.add_sub_add_right]

end Texts

end Cursor

/- Behind a character the cursors stand alike again. -/
theorem Continues.extended_tail
    {more : List Char}
    {Goes : List Char → List Char → Prop}
    (hGoes : Continues more Goes)
    {o : Nat}
    {x : Char}
    {xs : List Char}
    {c' : Cursor}
    (h : Cursor.Extended Goes ⟨o, x :: xs⟩ c')
    (hSlash : x ≠ '\\')
    (o' : Nat) :
    Cursor.Extended Goes ⟨o', xs⟩ ⟨o', xs ++ more⟩ :=
  ⟨hGoes.tail h.text hSlash, fun _ => rfl⟩

namespace Scan

open Cursor (Extended)

variable {α β : Type}

------------------------------------------------------------
-- Readers
------------------------------------------------------------

/-
  Whatever the reader gives, it gives where the text goes on,
  and it stops at the same place.
-/
def Extends
    (Goes : List Char → List Char → Prop)
    (act : Scan α) : Prop :=
  ∀ (c c' d : Cursor) (a : α),
    Extended Goes c c' →
      value? act c = some (a, d) →
        ∃ d', Extended Goes d d' ∧ value? act c' = some (a, d')

variable {more : List Char} {Goes : List Char → List Char → Prop}

theorem Extends.pure (a : α) : Extends Goes (pure a : Scan α) := by
  intro c c' d b hExt h
  cases h
  exact ⟨c', hExt, rfl⟩

/- A reader that gives nothing sets no bounds. -/
theorem Extends.of_none
    {act : Scan α}
    (h : ∀ c, value? act c = none) :
    Extends Goes act := by
  intro c c' d a _ hRead
  simp [h] at hRead

theorem Extends.bind
    {act : Scan α}
    {next : α → Scan β}
    (hAct : Extends Goes act)
    (hNext : ∀ a, Extends Goes (next a)) :
    Extends Goes (act >>= next) := by
  intro c c' e b hExt h
  rcases value?_bind_eq_some_iff.1 h with ⟨a, d, hFirst, hLast⟩
  rcases hAct c c' d a hExt hFirst with ⟨d', hExt', hFirst'⟩
  rcases hNext a d d' e b hExt' hLast with ⟨e', hExt'', hLast'⟩
  exact ⟨e', hExt'', value?_bind_eq_some_iff.2 ⟨a, d', hFirst', hLast'⟩⟩

theorem Extends.map
    (f : α → β)
    {act : Scan α}
    (hAct : Extends Goes act) :
    Extends Goes (f <$> act) := by
  intro c c' d b hExt h
  rw [value?_map, Option.map_eq_some_iff] at h
  rcases h with ⟨⟨a, e⟩, hRead, hPair⟩
  cases hPair
  rcases hAct c c' d a hExt hRead with ⟨d', hExt', hRead'⟩
  refine ⟨d', hExt', ?_⟩
  rw [value?_map, hRead']
  rfl

theorem Extends.ite
    {p : Prop}
    [Decidable p]
    {act other : Scan α}
    (hAct : Extends Goes act)
    (hOther : Extends Goes other) :
    Extends Goes (if p then act else other) := by
  split
  · exact hAct
  · exact hOther

/- What is read of a part of its own hangs on the part alone. -/
theorem extends_within (part : Cursor) (act : Scan α) :
    Extends Goes (within part act) := by
  intro c c' d a hExt h
  rw [value?_within, Option.map_eq_some_iff] at h
  rcases h with ⟨⟨b, e⟩, hRead, hPair⟩
  cases hPair
  refine ⟨c', hExt, ?_⟩
  rw [value?_within, hRead]
  rfl

theorem extends_ofExcept (result : Except Fault α) :
    Extends Goes (ofExcept result) := by
  cases result with
  | error fault => exact .of_none fun _ => rfl
  | ok a => exact .pure a

theorem extends_pattern
    (o : Nat)
    (ignoreCase : Bool)
    (source : String) :
    Extends Goes (pattern E o ignoreCase source) := by
  unfold pattern
  cases Pattern.read? E ignoreCase source with
  | some p => exact .pure p
  | none => exact .of_none fun _ => rfl

section Continued

variable (hGoes : Continues more Goes)

include hGoes

/-
  The next character is the same, except at the end of the
  text, where nothing may be read.
-/
theorem Extends.peek_bind
    {next : Option Char → Scan α}
    (hEnd : ∀ o, value? (next none) ⟨o, []⟩ = none)
    (hNext : ∀ x, Extends Goes (next (some x))) :
    Extends Goes (peek? >>= next) := by
  rintro ⟨o, rest⟩ c' d a hExt h
  rw [value?_bind, value?_peek?, Option.bind_some] at h ⊢
  cases rest with
  | nil => simp [hEnd] at h
  | cons x xs =>
      cases hExt.cons hGoes.cons
      exact hNext x _ _ d a hExt h

/- So it is with the character that is read first. -/
theorem Extends.advance_bind
    {next : Unit → Scan α}
    (hNext : ∀ u, Extends Goes (next u))
    {o : Nat}
    {x : Char}
    {xs : List Char}
    {c' d : Cursor}
    {a : α}
    (hExt : Extended Goes ⟨o, x :: xs⟩ c')
    (hSlash : x ≠ '\\')
    (h : value? (advance >>= next) ⟨o, x :: xs⟩ = some (a, d)) :
    ∃ d', Extended Goes d d' ∧
      value? (advance >>= next) c' = some (a, d') := by
  have hTail := hGoes.extended_tail hExt hSlash (o + x.utf8Size)
  rw [value?_bind, value?_advance_cons, Option.bind_some] at h
  rw [hExt.cons hGoes.cons, value?_bind, value?_advance_cons,
    Option.bind_some]
  exact hNext () _ _ d a hTail h

theorem extends_balanced
    {opening closing : Char}
    (hBrackets : areBrackets opening closing = true)
    (code : Code) :
    Extends Goes (balanced opening closing code) := by
  rintro ⟨o, text⟩ c' d part hExt h
  rw [value?_eq_some_iff] at h
  cases text with
  | nil => simp [balanced] at h
  | cons b cs =>
      by_cases hOpening : b = opening
      · subst hOpening
        cases hRead : readBalanced? b closing 0 none cs with
        | none => simp [balanced, hRead] at h
        | some read =>
            rcases read with ⟨content, rest⟩
            have hMore := readBalanced?_append hRead more
            have hSuffix : rest <:+ b :: cs := by
              rw [readBalanced?_split hRead]
              exact ⟨b :: content ++ [closing], by simp⟩
            have hMove := hExt.moveTo hGoes.cons hSuffix
              (hGoes.behind hExt.text hBrackets hRead)
            cases hExt.cons hGoes.cons
            simp only [balanced, ↓reduceIte, hRead,
              EStateM.Result.ok.injEq] at h
            rcases h with ⟨rfl, rfl⟩
            refine ⟨_, hMove, ?_⟩
            rw [value?_eq_some_iff]
            simp only [balanced, ↓reduceIte, hMore]
      · simp [balanced, hOpening] at h

------------------------------------------------------------
-- Arguments
------------------------------------------------------------

theorem extends_attributeTest : Extends Goes (attributeTest E) :=
  (extends_balanced hGoes rfl .unterminatedAttribute).bind fun part =>
    extends_within part (bracketed E)

theorem extends_parenthesized (name : String) :
    Extends Goes (parenthesized name) := by
  refine .peek_bind hGoes ?_ fun x => ?_
  · intro o
    rfl
  · refine .ite (extends_balanced hGoes rfl _) (.of_none ?_)
    intro c
    rfl

theorem extends_argument (name : String) :
    Extends Goes (argument name) := by
  refine (extends_parenthesized hGoes name).bind fun part =>
    .ite ?_ (.pure _)
  exact .of_none fun _ => rfl

theorem extends_textArgument (name : String) (resolve : Bool) :
    Extends Goes (textArgument name resolve) := by
  refine (extends_argument hGoes name).bind fun part => .ite ?_ ?_
  · refine (extends_within _ _).bind fun text => .ite ?_ (.pure _)
    exact .of_none fun _ => rfl
  · exact .ite (.pure _) (.pure _)

theorem extends_indexArgument (name : String) :
    Extends Goes (indexArgument name) := by
  refine (extends_argument hGoes name).bind fun part => ?_
  cases readIndex? part.rest with
  | some n => exact .pure n
  | none => exact .of_none fun _ => rfl

theorem extends_formulaArgument (name : String) :
    Extends Goes (formulaArgument name) := by
  refine (extends_argument hGoes name).bind fun part => ?_
  cases Formula.parse? (argumentText part) with
  | some formula => exact .pure formula
  | none => exact .of_none fun _ => rfl

theorem extends_meaning
    (nested : Cursor → Except Fault (Selector E))
    (before : List (Selector E))
    (name : String)
    (known : PseudoClass E) :
    Extends Goes (meaning nested before name known) := by
  cases known with
  | plain s => exact .pure s
  | index test =>
      exact (extends_indexArgument hGoes name).bind fun _ => .pure _
  | position kind =>
      exact (extends_formulaArgument hGoes name).bind fun _ => .pure _
  | nested nesting =>
      refine (extends_argument hGoes name).bind fun part => ?_
      exact (extends_ofExcept (nested part)).bind fun _ => .pure _
  | contains source =>
      exact (extends_textArgument hGoes name true).bind fun _ => .pure _
  | matchesText source =>
      refine (extends_textArgument hGoes name false).bind fun text => ?_
      exact (extends_pattern _ _ _).bind fun _ => .pure _

------------------------------------------------------------
-- Parts
------------------------------------------------------------

theorem extends_identifier : Extends Goes identifier := by
  intro c c' d name hExt h
  rw [value?_eq_some_iff] at h
  unfold identifier at h
  cases hRead : readIdentifier? c.rest with
  | none => simp [hRead] at h
  | some read =>
      rcases read with ⟨chars, rest⟩
      rcases hGoes.readIdentifier? hExt.text hRead with ⟨rest', hRest, hRead'⟩
      rw [hRead] at h
      cases chars with
      | nil => simp at h
      | cons x xs =>
          simp only [EStateM.Result.ok.injEq] at h
          rcases h with ⟨rfl, rfl⟩
          have hSuffix := (readIdentifier?_suffix hRead).1
          refine ⟨_, hExt.moveTo hGoes.cons hSuffix hRest, ?_⟩
          rw [value?_eq_some_iff, identifier, hRead']

/- A sign that is no separator is there or not as before. -/
theorem extends_chomp
    {text : String}
    {sign : Char}
    (hText : text.toList = [sign])
    (hSign : sign ∈ ['|', '*']) :
    Extends Goes (chomp text) := by
  have hKnown : sign ∈ ['|', '*', '^', ','] :=
    List.mem_append_left ['^', ','] hSign
  rintro ⟨o, rest⟩ c' d a hExt h
  rw [value?_chomp_sign hText hKnown] at h
  cases rest with
  | nil =>
      cases h
      rcases c' with ⟨o', after⟩
      refine ⟨⟨o', after⟩, hExt, ?_⟩
      rw [value?_chomp_sign hText hKnown]
      cases after with
      | nil => rfl
      | cons y ys =>
          have hOther : y ≠ sign := by
            rintro rfl
            exact hGoes.noSign hExt.text hSign
          simp [hOther]
  | cons x xs =>
      have hSlash : sign ≠ '\\' := by
        rintro rfl
        exact absurd hSign (by decide)
      by_cases hThere : x = sign
      · subst hThere
        simp only [↓reduceIte, Option.some.injEq, Prod.mk.injEq] at h
        rcases h with ⟨rfl, rfl⟩
        refine ⟨_, hGoes.extended_tail hExt hSlash (o + 1), ?_⟩
        rw [hExt.cons hGoes.cons, value?_chomp_sign hText hKnown]
        simp
      · simp only [if_neg hThere, Option.some.injEq, Prod.mk.injEq] at h
        rcases h with ⟨rfl, rfl⟩
        refine ⟨_, hExt, ?_⟩
        rw [hExt.cons hGoes.cons, value?_chomp_sign hText hKnown]
        simp [hThere]

theorem extends_chomp_bar : Extends Goes (chomp "|") :=
  have hBar : "|".toList = ['|'] := rfl
  extends_chomp hGoes hBar (by simp)

theorem extends_chomp_star : Extends Goes (chomp "*") :=
  have hStar : "*".toList = ['*'] := rfl
  extends_chomp hGoes hStar (by simp)

theorem extends_tagName : Extends Goes tagName :=
  (extends_identifier hGoes).map _

theorem extends_afterStar : Extends Goes (afterStar E) := by
  refine (extends_chomp_bar hGoes).bind fun _ => .ite ?_ (.pure _)
  refine (extends_chomp_star hGoes).bind fun _ => .ite (.pure _) ?_
  exact (extends_tagName hGoes).bind fun _ => .pure _

theorem extends_afterName (name : String) :
    Extends Goes (afterName E name) := by
  refine (extends_chomp_bar hGoes).bind fun _ => .ite ?_ (.pure _)
  refine (extends_chomp_star hGoes).bind fun _ => .ite (.pure _) ?_
  exact (extends_tagName hGoes).bind fun _ => .pure _

theorem extends_pseudoClassName (start : Nat) :
    Extends Goes (pseudoClassName start) := by
  refine .peek_bind hGoes ?_ fun x => ?_
  · intro o
    simp [identifier, value?, Functor.map, EStateM.map,
      TreeQuery.readIdentifier?]
  · refine .ite (.of_none ?_) ((extends_identifier hGoes).map _)
    intro c
    rfl

variable {nested : Cursor → Except Fault (Selector E)}

/- What follows a colon is the same. -/
theorem extends_named (before : List (Selector E)) (start : Nat) :
    Extends Goes (pseudoClassName start >>= fun name =>
      match pseudoClass? E name with
      | some known => meaning nested before name known
      | none => failAt start (.unknownPseudoClass name)) := by
  refine (extends_pseudoClassName hGoes start).bind fun name => ?_
  cases pseudoClass? E name with
  | none => exact .of_none fun _ => rfl
  | some known => exact extends_meaning hGoes nested before name known

/- Only names begin with a backslash. -/
omit hGoes in
theorem ne_slash_of_partStart?
    {isFirst : Bool}
    {x : Char}
    {start : PartStart}
    (h : partStart? isFirst x = some start)
    (hOther : start ≠ .name) :
    x ≠ '\\' := by
  rintro rfl
  have hAll :
      ∀ isFirst, (partStart? isFirst '\\').all (· == PartStart.name) := by
    decide
  have hName := hAll isFirst
  rw [h] at hName
  exact hOther (by simpa using hName)

theorem value?_partWith_extend
    {before : List (Selector E)}
    {isFirst : Bool}
    {start : PartStart}
    {o : Nat}
    {x : Char}
    {xs : List Char}
    (hStart : partStart? isFirst x = some start)
    {c' d : Cursor}
    (hExt : Extended Goes ⟨o, x :: xs⟩ c')
    {s : Selector E}
    (h : value? (partWith nested before start) ⟨o, x :: xs⟩ =
      some (s, d)) :
    ∃ d', Extended Goes d d' ∧
      value? (partWith nested before start) c' = some (s, d') := by
  have hSlash := ne_slash_of_partStart? hStart
  have hMarked :
      ∀ make : String → Selector E, x ≠ '\\' →
        value? (markedName make) ⟨o, x :: xs⟩ = some (s, d) →
          ∃ d', Extended Goes d d' ∧
            value? (markedName make) c' = some (s, d') := by
    intro make hOther hRead
    refine Extends.advance_bind hGoes (fun _ => ?_) hExt hOther hRead
    exact (extends_identifier hGoes).bind fun _ => .pure _
  cases start with
  | star =>
      exact Extends.advance_bind hGoes (fun _ => extends_afterStar hGoes)
        hExt (hSlash (by simp)) h
  | hash => exact hMarked .id (hSlash (by simp)) h
  | dot => exact hMarked .className (hSlash (by simp)) h
  | bracket => exact extends_attributeTest hGoes _ _ _ _ hExt h
  | colon =>
      rcases value?_bind_eq_some_iff.1 h with ⟨start, e, hOffset, hRest⟩
      cases hOffset
      rcases Extends.advance_bind hGoes
        (fun _ => extends_named hGoes before o) hExt (hSlash (by simp))
        hRest with ⟨d', hExt', hRest'⟩
      refine ⟨d', hExt', ?_⟩
      have hOffset : c'.offset = o := hExt.offset (by simp)
      refine value?_bind_eq_some_iff.2 ⟨o, c', ?_, hRest'⟩
      rw [value?_offset, hOffset]
  | name =>
      exact ((extends_tagName hGoes).bind
        (extends_afterName hGoes)) _ _ _ _ hExt h

/- A part is read as before where the text goes on. -/
theorem value?_part?_extend
    {before : List (Selector E)}
    {c c' d : Cursor}
    {s : Selector E}
    (hExt : Extended Goes c c')
    (h : value? (part? nested before) c = some (some s, d)) :
    ∃ d', Extended Goes d d' ∧
      value? (part? nested before) c' = some (some s, d') := by
  rcases c with ⟨o, rest⟩
  rw [value?_part?] at h
  cases rest with
  | nil => simp at h
  | cons x xs =>
      have hHead : c'.rest.head? = some x := by
        rw [hExt.cons hGoes.cons]
        rfl
      simp only [List.head?_cons, Option.bind_some] at h
      cases hStart : partStart? before.isEmpty x with
      | none => simp [hStart] at h
      | some start =>
          simp only [hStart, Option.map_eq_some_iff, Prod.exists,
            Prod.mk.injEq, Option.some.injEq] at h
          rcases h with ⟨t, e, hRead, rfl, rfl⟩
          rcases value?_partWith_extend hGoes hStart hExt hRead with
            ⟨d', hExt', hRead'⟩
          refine ⟨d', hExt', ?_⟩
          rw [value?_part?, hHead]
          simp only [Option.bind_some, hStart, hRead', Option.map_some]

end Continued

end Scan

end TreeQuery
