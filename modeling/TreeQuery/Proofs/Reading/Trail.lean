import TreeQuery.Proofs.Reading.Locality
import TreeQuery.Proofs.Reading.Quote

/-
  Blanks behind a text.

  A text is read side by side with the same text with blanks
  behind it.  Both are read alike up to the end of the text.
  There a name may go on with the blanks, since characters
  beyond ASCII may stand in names and a backslash takes any
  character.  Then the names that are read differ.

  Key definitions include:
    * `takesBlank`
    * `Outcome`
    * `Trailed`

  Main statements:
    * `takesBlank_balanced`
    * `takesBlank_of_no_slash`
    * `Trailed.readIdentifier?`
-/

namespace TreeQuery

------------------------------------------------------------
-- Blanks
------------------------------------------------------------

/- A blank is no sign of the grammar. -/
theorem ne_of_isBlank
    {x y : Char}
    (h : Text.isBlank x = true)
    (hSign :
      y ∈ ['\\', '#', '.', '[', ']', ':', '(', ')', '|', '*', ',', '"', '\'',
        '>', '+', '~']) :
    x ≠ y := by
  have hAll :
      ∀ y ∈ ['\\', '#', '.', '[', ']', ':', '(', ')', '|', '*', ',', '"',
          '\'', '>', '+', '~'], Text.isBlank y = false :=
    List.all_iff_forall_prop.1 (by decide)
  rintro rfl
  rw [hAll x hSign] at h
  exact absurd h (by simp)

/- Hexadecimal digits are ASCII characters. -/
theorem ascii_of_isHexDigit
    {x : Char}
    (h : Text.isHexDigit x = true) :
    x.toNat < 128 := by
  simp only [Text.isHexDigit, Text.hexValue?, Char.isDigit, Char.le_def,
    Bool.and_eq_true, decide_eq_true_eq, UInt32.le_iff_toNat_le] at h
  split_ifs at h with hNumber hSmall hCapital
  · exact Nat.lt_of_le_of_lt hNumber.2 (by decide)
  · exact Nat.lt_of_le_of_lt hSmall.2 (by decide)
  · exact Nat.lt_of_le_of_lt hCapital.2 (by decide)
  · simp at h

/- A blank is no hexadecimal digit. -/
theorem not_isHexDigit_of_isBlank
    {x : Char}
    (h : Text.isBlank x = true) :
    Text.isHexDigit x = false := by
  rw [Bool.eq_false_iff]
  intro hDigit
  have hAll :
      (List.range 128).all fun n =>
        !Text.isBlank (Char.ofNat n)
          || !Text.isHexDigit (Char.ofNat n) := by
    decide +kernel
  have hCase :=
    Text.forall_ascii
      (p := fun x => !Text.isBlank x || !Text.isHexDigit x) hAll
      (ascii_of_isHexDigit hDigit)
  simp [h, hDigit] at hCase

------------------------------------------------------------
-- Blanks Taken into a Name
------------------------------------------------------------

/- A name is read on, or may begin, behind the character. -/
def leadsName (c : Char) : Bool :=
  isIdentifierChar c || ['.', '#', '|', ':'].contains c

/-
  What is left of the text behind an escape that ends with the
  text before it.
-/
def behindEscape (escape after : List Char) : List Char :=
  match Text.readEscape? (escape ++ after) with
  | some (_, rest) => rest
  | none => after

/-
  At the end of a text the blanks behind it are taken into a
  name: the first of them may stand in the name that is read
  there, or it is marked by a backslash.  `inName` tells that a
  name is read where the text begins.
-/
def takesBlank (inName : Bool) (text after : List Char) : Bool :=
  match text with
  | [] => inName && after.head?.any isIdentifierChar
  | '\\' :: cs =>
      match h : Text.readEscape? cs with
      | none => !after.isEmpty
      | some (_, rest) =>
          have := (Text.readEscape?_suffix h).2
          takesBlank true rest
            (if rest.isEmpty then behindEscape cs after else after)
  | c :: cs => takesBlank (leadsName c) cs after
termination_by text.length

theorem takesBlank_nil (inName : Bool) (after : List Char) :
    takesBlank inName [] after =
      (inName && after.head?.any isIdentifierChar) := by
  rw [takesBlank]

theorem takesBlank_cons
    {c : Char}
    (hSlash : c ≠ '\\')
    (inName : Bool)
    (cs after : List Char) :
    takesBlank inName (c :: cs) after =
      takesBlank (leadsName c) cs after := by
  rw [takesBlank]
  exact hSlash

theorem takesBlank_escape
    {cs rest : List Char}
    {d : Char}
    (h : Text.readEscape? cs = some (d, rest))
    (inName : Bool)
    (after : List Char) :
    takesBlank inName ('\\' :: cs) after =
      takesBlank true rest
        (if rest.isEmpty then behindEscape cs after else after) := by
  rw [takesBlank]
  split
  · next hNone => simp [h] at hNone
  · next hSome =>
      rw [h, Option.some.injEq, Prod.mk.injEq] at hSome
      rw [hSome.2]

theorem takesBlank_slash (inName : Bool) (after : List Char) :
    takesBlank inName ['\\'] after = !after.isEmpty := by
  rw [takesBlank]
  rfl

/- Whether a name is read counts only where the text ends. -/
theorem takesBlank_of_ne_nil
    {text : List Char}
    (h : text ≠ [])
    (inName inName' : Bool)
    (after : List Char) :
    takesBlank inName text after = takesBlank inName' text after := by
  cases text with
  | nil => exact absurd rfl h
  | cons c cs =>
      by_cases hSlash : c = '\\'
      · subst hSlash
        cases hEscape : Text.readEscape? cs with
        | none =>
            cases eq_nil_of_readEscape? hEscape
            rw [takesBlank_slash, takesBlank_slash]
        | some read =>
            rw [takesBlank_escape hEscape, takesBlank_escape hEscape]
      · rw [takesBlank_cons hSlash, takesBlank_cons hSlash]

/- What stands in the text without a backslash is passed over. -/
theorem takesBlank_append
    {xs rest : List Char}
    (hPlain : ∀ x ∈ xs, x ≠ '\\')
    (hRest : rest ≠ [])
    (inName inName' : Bool)
    (after : List Char) :
    takesBlank inName (xs ++ rest) after =
      takesBlank inName' rest after := by
  induction xs generalizing inName with
  | nil => exact takesBlank_of_ne_nil hRest inName inName' after
  | cons x xs ih =>
      rw [List.cons_append, takesBlank_cons (hPlain x (by simp))]
      exact ih (fun y hMem => hPlain y (by simp [hMem])) (leadsName x)

/-
  So is a text between brackets.  An escape may take digits and
  a blank that are passed over one by one here, but never the
  closing bracket.
-/
theorem takesBlank_balanced
    {opening closing : Char}
    (hClosing : closing ∈ [')', ']'])
    {depth : Nat}
    {quote : Option Char}
    {cs content rest : List Char}
    (h : readBalanced? opening closing depth quote cs =
      some (content, rest))
    (inName : Bool)
    (after : List Char) :
    takesBlank inName cs after = takesBlank false rest after := by
  have hSpecial :
      ∀ x ∈ [')', ']'], leadsName x = false ∧ isEscapeTail x = false :=
    List.all_iff_forall_prop.1 (by decide)
  rcases hSpecial closing hClosing with ⟨hLeads, hTail⟩
  fun_induction readBalanced? opening closing depth quote cs
    generalizing content inName with
  | case1 => simp at h
  | case2 => simp at h
  | case3 depth quote c cs ih =>
      rcases prepend_eq_some_iff.1 h with ⟨tail, hMarked, _⟩
      rcases prepend_eq_some_iff.1 hMarked with ⟨tail', hRead, _⟩
      cases hEscape : Text.readEscape? (c :: cs) with
      | none => cases eq_nil_of_readEscape? hEscape
      | some read =>
          rcases read with ⟨d, behind⟩
          rcases exists_of_readEscape? hEscape with ⟨_, xs, hCons, hXs⟩
          cases hCons
          have hPlain : ∀ x ∈ xs, x ≠ '\\' := by
            rintro x hMem rfl
            exact not_special_of_isEscapeTail (hXs _ hMem) (by decide)
          have hSome : behind ≠ [] := by
            rintro rfl
            have hMem : closing ∈ xs := by
              have hSplit := readBalanced?_split hRead
              rw [List.append_nil] at hSplit
              simp [hSplit]
            rw [hXs closing hMem] at hTail
            exact absurd hTail (by simp)
          rw [takesBlank_escape hEscape,
            if_neg fun hNil => hSome (List.isEmpty_iff.1 hNil),
            ← takesBlank_append hPlain hSome false]
          exact ih hRead false
  | case4 depth q c cs hEnd hSlash ih =>
      rcases prepend_eq_some_iff.1 h with ⟨tail, hRead, _⟩
      rw [takesBlank_cons (ne_slash_of_not_escape hEnd hSlash)]
      exact ih hRead (leadsName c)
  | case5 depth c cs hEnd hSlash hQuote ih =>
      rcases prepend_eq_some_iff.1 h with ⟨tail, hRead, _⟩
      rw [takesBlank_cons (ne_slash_of_not_escape hEnd hSlash)]
      exact ih hRead (leadsName c)
  | case6 depth cs hEnd hSlash hQuote ih =>
      rcases prepend_eq_some_iff.1 h with ⟨tail, hRead, _⟩
      rw [takesBlank_cons (ne_slash_of_not_escape hEnd hSlash)]
      exact ih hRead (leadsName opening)
  | case7 cs hEnd hSlash hQuote hOpening =>
      cases h
      rw [takesBlank_cons (ne_slash_of_not_escape hEnd hSlash), hLeads]
  | case8 cs depth hEnd hSlash hQuote hOpening ih =>
      rcases prepend_eq_some_iff.1 h with ⟨tail, hRead, _⟩
      rw [takesBlank_cons (ne_slash_of_not_escape hEnd hSlash)]
      exact ih hRead (leadsName closing)
  | case9 depth c cs hEnd hSlash hQuote hOpening hOther ih =>
      rcases prepend_eq_some_iff.1 h with ⟨tail, hRead, _⟩
      rw [takesBlank_cons (ne_slash_of_not_escape hEnd hSlash)]
      exact ih hRead (leadsName c)

/- An escape at the end of the text leaves blanks behind it. -/
theorem behindEscape_suffix
    {cs after : List Char}
    {d : Char}
    (hAfter : Text.AreBlanks after)
    (h : Text.readEscape? cs = some (d, [])) :
    behindEscape cs after <:+ after := by
  have hDigit : after.head?.any Text.isHexDigit = false := by
    cases after with
    | nil => rfl
    | cons y ys => exact not_isHexDigit_of_isBlank (hAfter y (by simp))
  rcases readEscape?_goesOn hDigit h with ⟨rest, hGoes, hEscape⟩
  rw [behindEscape, hEscape]
  cases hGoes with
  | inside hSome => exact absurd rfl hSome
  | atEnd hDrops =>
      rcases hDrops with ⟨dropped, hSplit, _⟩
      exact ⟨dropped, hSplit.symm⟩

/-
  Blanks that cannot stand in a name are not taken unless a
  backslash is the last character before them.
-/
theorem takesBlank_of_no_slash
    {text after : List Char}
    (hAfter : Text.AreBlanks after)
    (hOutside : ∀ x ∈ after, isIdentifierChar x = false)
    (hLast : text.getLast? ≠ some '\\')
    (inName : Bool) :
    takesBlank inName text after = false := by
  fun_induction takesBlank inName text after with
  | case1 inName after =>
      cases after with
      | nil => simp
      | cons x xs => simp [hOutside x (by simp)]
  | case2 inName after cs hEscape =>
      cases eq_nil_of_readEscape? hEscape
      simp at hLast
  | case3 inName after cs d rest hEscape _ ih =>
      have hRest : rest <:+ '\\' :: cs :=
        (Text.readEscape?_suffix hEscape).1.trans (List.suffix_cons _ _)
      have hBehind :
          (if rest.isEmpty then behindEscape cs after else after) <:+
            after := by
        split
        · next hEmpty =>
            cases List.isEmpty_iff.1 hEmpty
            exact behindEscape_suffix hAfter hEscape
        · exact List.suffix_rfl
      exact ih (hAfter.of_suffix hBehind)
        (fun x hMem => hOutside x (hBehind.subset hMem))
        fun hEnd => hLast (Text.getLast?_of_suffix hRest hEnd)
  | case4 inName after c cs hSlash ih =>
      exact ih hAfter hOutside fun hEnd =>
        hLast (Text.getLast?_of_suffix (List.suffix_cons c cs) hEnd)

------------------------------------------------------------
-- Two Readings
------------------------------------------------------------

/-
  What is read of a text and of the text with blanks behind it:
  nothing, or the same value, with the places behind it
  `Alike`.  Where a blank is taken into a name, two values are
  `Apart`, if there are two.
-/
inductive Outcome {α σ : Type}
    (taken : Bool)
    (Alike : α → σ → σ → Prop)
    (Apart : α → α → σ → σ → Prop) :
    Option (α × σ) → Option (α × σ) → Prop where
| fails : Outcome taken Alike Apart none none
| agrees {a : α} {s s' : σ} (hAlike : Alike a s s') :
    Outcome taken Alike Apart (some (a, s)) (some (a, s'))
| differs {r r' : Option (α × σ)}
    (hTaken : taken = true)
    (hApart : ∀ a s a' s',
      r = some (a, s) → r' = some (a', s') → Apart a a' s s') :
    Outcome taken Alike Apart r r'

/-
  Readings go on: alike where they were alike, and apart where
  they were apart.
-/
theorem Outcome.bind {α β σ τ : Type}
    {taken : Bool}
    {Alike : α → σ → σ → Prop}
    {Apart : α → α → σ → σ → Prop}
    {Alike' : β → τ → τ → Prop}
    {Apart' : β → β → τ → τ → Prop}
    {r r' : Option (α × σ)}
    {next next' : α × σ → Option (β × τ)}
    (h : Outcome taken Alike Apart r r')
    (hAlike : ∀ a s s', r = some (a, s) → Alike a s s' →
      Outcome taken Alike' Apart' (next (a, s)) (next' (a, s')))
    (hApart : ∀ a s a' s', Apart a a' s s' →
      ∀ b t b' t', next (a, s) = some (b, t) →
        next' (a', s') = some (b', t') → Apart' b b' t t') :
    Outcome taken Alike' Apart' (r.bind next) (r'.bind next') := by
  cases h with
  | fails => exact .fails
  | agrees hFirst => exact hAlike _ _ _ rfl hFirst
  | differs hTaken hFirst =>
      refine .differs hTaken fun b t b' t' hRead hRead' => ?_
      rcases Option.bind_eq_some_iff.1 hRead with ⟨⟨a, s⟩, hA, hB⟩
      rcases Option.bind_eq_some_iff.1 hRead' with ⟨⟨a', s'⟩, hA', hB'⟩
      exact hApart _ _ _ _ (hFirst _ _ _ _ hA hA') _ _ _ _ hB hB'

/-
  A text and the same text with the blanks `more` behind it, of
  which a name takes some or none.  At its end an escape may
  have taken one of them before.
-/
inductive Trailed
    (more : List Char)
    (taken inName : Bool) : List Char → List Char → Prop where
| inside {text : List Char}
    (hSome : text ≠ [])
    (hTrim : Text.trimEnd text = text)
    (hTaken : takesBlank inName text more = taken) :
    Trailed more taken inName text (text ++ more)
| atEnd {after : List Char}
    (hAfter : DropsBlanks more after)
    (hTaken : takesBlank inName [] after = taken) :
    Trailed more taken inName [] after

/- One name has blanks in it that are not in the other. -/
def NamesApart (name name' rest rest' : List Char) : Prop :=
  name.length < name'.length ∧ rest = [] ∧ Text.AreBlanks rest'

section Blanks

variable {more : List Char} {taken inName : Bool}

theorem Trailed.goesOn
    {text text' : List Char}
    (h : Trailed more taken inName text text') :
    GoesOn more text text' := by
  cases h with
  | inside hSome hTrim hTaken => exact .inside hSome
  | atEnd hAfter hTaken => exact .atEnd hAfter

/- Behind a part of the text the rest is trailed by the same blanks. -/
theorem trailed_append
    {text : List Char}
    (hTrim : Text.trimEnd text = text)
    (hTaken : takesBlank inName text more = taken) :
    Trailed more taken inName text (text ++ more) := by
  cases text with
  | nil => exact .atEnd (.refl more) hTaken
  | cons x xs => exact .inside (by simp) hTrim hTaken

theorem Trailed.cons
    {x : Char}
    {xs text' : List Char}
    (h : Trailed more taken inName (x :: xs) text') :
    text' = x :: (xs ++ more) ∧ Text.trimEnd (x :: xs) = x :: xs ∧
      takesBlank inName (x :: xs) more = taken := by
  cases h with
  | inside hSome hTrim hTaken => exact ⟨rfl, hTrim, hTaken⟩

/- Whether a name is read counts only where the text ends. -/
theorem Trailed.of_ne_nil
    {text text' : List Char}
    (h : Trailed more taken inName text text')
    (hSome : text ≠ [])
    (inName' : Bool) :
    Trailed more taken inName' text text' := by
  cases h with
  | inside hSome hTrim hTaken =>
      refine .inside hSome hTrim ?_
      rw [takesBlank_of_ne_nil hSome inName' inName, hTaken]
  | atEnd hAfter hTaken => exact absurd rfl hSome

theorem Outcome.prepend
    {read? read?' : Option (List Char × List Char)}
    (d : Char)
    (h : Outcome taken (fun _ => Trailed more taken false) NamesApart
      read? read?') :
    Outcome taken (fun _ => Trailed more taken false) NamesApart
      (TreeQuery.prepend d read?) (TreeQuery.prepend d read?') := by
  cases h with
  | fails => exact .fails
  | agrees hAlike => exact .agrees hAlike
  | differs hTaken hApart =>
      refine .differs hTaken fun name rest name' rest' hRead hRead' => ?_
      rcases prepend_eq_some_iff.1 hRead with ⟨tail, hTail, rfl⟩
      rcases prepend_eq_some_iff.1 hRead' with ⟨tail', hTail', rfl⟩
      rcases hApart _ _ _ _ hTail hTail' with ⟨hLess, hEnd⟩
      exact ⟨by simpa using hLess, hEnd⟩

variable (hMore : Text.AreBlanks more)

include hMore

theorem areBlanks_of_dropsBlanks
    {after : List Char}
    (h : DropsBlanks more after) :
    Text.AreBlanks after := by
  rcases h with ⟨dropped, hSplit, _⟩
  exact hMore.of_suffix ⟨dropped, hSplit.symm⟩

/- At the end of the text a name is read of the blanks, if at all. -/
theorem outcome_readIdentifier?_nil
    {after : List Char}
    (hAfter : DropsBlanks more after)
    (hTaken : takesBlank true [] after = taken) :
    Outcome taken (fun _ => Trailed more taken false) NamesApart
      (some ([], [])) (readIdentifier? after) := by
  have hBlanks := areBlanks_of_dropsBlanks hMore hAfter
  rw [takesBlank_nil, Bool.true_and] at hTaken
  cases after with
  | nil =>
      rw [readIdentifier?.eq_1]
      refine .agrees (.atEnd hAfter ?_)
      rw [takesBlank_nil, Bool.false_and, ← hTaken]
      rfl
  | cons x xs =>
      have hSlash : x ≠ '\\' := ne_of_isBlank (hBlanks x (by simp)) (by simp)
      rw [readIdentifier?.eq_3 _ _ hSlash]
      by_cases hChar : isIdentifierChar x = true
      · rw [if_pos hChar]
        refine .differs (hTaken ▸ hChar) fun name rest name' rest' => ?_
        intro hRead hRead'
        cases hRead
        rcases prepend_eq_some_iff.1 hRead' with ⟨tail, hTail, rfl⟩
        have hSuffix := (readIdentifier?_suffix hTail).1
        refine ⟨by simp, rfl, ?_⟩
        exact hBlanks.of_suffix (hSuffix.trans (List.suffix_cons x xs))
      · rw [if_neg hChar]
        refine .agrees (.atEnd hAfter ?_)
        rw [takesBlank_nil, ← hTaken]
        exact (Bool.eq_false_iff.2 hChar).symm

/-
  A name is read alike up to the end of the text, and with
  blanks in it where they are taken.
-/
theorem Trailed.readIdentifier?
    {text text' : List Char}
    (h : Trailed more taken true text text') :
    Outcome taken (fun _ => Trailed more taken false) NamesApart
      (readIdentifier? text) (TreeQuery.readIdentifier? text') := by
  fun_induction TreeQuery.readIdentifier? text generalizing text' with
  | case1 =>
      cases h with
      | inside hSome hTrim hTaken => exact absurd rfl hSome
      | atEnd hAfter hTaken =>
          exact outcome_readIdentifier?_nil hMore hAfter hTaken
  | case2 cs hEscape =>
      cases eq_nil_of_readEscape? hEscape
      rcases h.cons with ⟨rfl, hTrim, hTaken⟩
      rw [takesBlank_slash] at hTaken
      cases more with
      | nil =>
          have hNone : TreeQuery.readIdentifier? ['\\'] = none := by
            rw [TreeQuery.readIdentifier?]
            rfl
          rw [List.append_nil, hNone]
          exact .fails
      | cons x xs => exact .differs hTaken.symm (by simp)
  | case3 cs d behind hEscape _ ih =>
      rcases h.cons with ⟨rfl, hTrim, hTaken⟩
      have hDigit : more.head?.any Text.isHexDigit = false := by
        cases more with
        | nil => rfl
        | cons y ys => exact not_isHexDigit_of_isBlank (hMore y (by simp))
      rcases readEscape?_goesOn hDigit hEscape with
        ⟨behind', hGoes, hEscape'⟩
      rw [takesBlank_escape hEscape] at hTaken
      rw [readIdentifier?_escape hEscape']
      refine .prepend d (ih ?_)
      cases hGoes with
      | inside hSome =>
          have hSuffix : behind <:+ '\\' :: cs :=
            (Text.readEscape?_suffix hEscape).1.trans
              (List.suffix_cons _ _)
          rw [if_neg fun hNil => hSome (List.isEmpty_iff.1 hNil)] at hTaken
          exact .inside hSome (Text.trimEnd_of_suffix hTrim hSuffix) hTaken
      | atEnd hAfter =>
          have hBehind : behindEscape cs more = behind' := by
            rw [behindEscape, hEscape']
          rw [hBehind] at hTaken
          exact .atEnd hAfter hTaken
  | case4 c cs hSlash hChar ih =>
      rcases h.cons with ⟨rfl, hTrim, hTaken⟩
      have hLeads : leadsName c = true := by simp [leadsName, hChar]
      have hTrim' := Text.trimEnd_of_suffix hTrim (List.suffix_cons c cs)
      rw [takesBlank_cons hSlash, hLeads] at hTaken
      rw [readIdentifier?.eq_3 _ _ hSlash, if_pos hChar]
      exact .prepend c (ih (trailed_append hTrim' hTaken))
  | case5 c cs hSlash hChar =>
      have hFalse := h.of_ne_nil (by simp) false
      rcases h.cons with ⟨rfl, _, _⟩
      rw [readIdentifier?.eq_3 _ _ hSlash, if_neg hChar]
      exact .agrees hFalse

end Blanks

end TreeQuery
