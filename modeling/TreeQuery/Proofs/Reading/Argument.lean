import TreeQuery.Proofs.Reading.Stride

/-
  Texts in arguments, and the refusal of empty ones.

  An argument is refused where it is blank, and a text in
  quotes where it is empty.  What escapes and blanks make of
  the text is not looked at again: a bare text that is a single
  backslash becomes an empty text, and so does a text of blanks
  in small letters and single spaces.

  Key definitions include:
    * `PseudoClass.resolves?`
    * `Scan.writtenText?`
    * `Scan.RefusesEmpty`

  Main statements:
    * `Scan.needle_eq_empty_iff`
    * `Scan.textArgument_eq_ok_iff`
    * `Scan.writtenText?_eq_empty_iff`
    * `Scan.refusesEmpty_meaning_iff`
    * `Scan.refusesEmpty_operatorAndValue_iff`
-/

namespace TreeQuery

variable {E : Engine}

/-
  Whether escapes are resolved in the text that a pseudo-class
  takes, if it takes one.
-/
def PseudoClass.resolves? : PseudoClass E → Option Bool
| .contains _ => some true
| .matchesText _ => some false
| _ => none

------------------------------------------------------------
-- Texts That Become Empty
------------------------------------------------------------

namespace Text

/- Only a backslash at the end is dropped without a trace. -/
theorem dropBackslashes_eq_nil_iff {cs : List Char} :
    dropBackslashes cs = [] ↔ cs = [] ∨ cs = ['\\'] := by
  fun_cases dropBackslashes cs with
  | case1 => simp
  | case2 c rest => simp
  | case3 => simp
  | case4 c rest hMarked hLast =>
      simp only [reduceCtorEq, List.cons.injEq, false_or, false_iff,
        not_and]
      rintro rfl rfl
      exact hLast rfl rfl

theorem wordsFrom_eq_nil_iff {word cs : List Char} :
    wordsFrom word cs = [] ↔ word = [] ∧ AreBlanks cs := by
  induction cs generalizing word with
  | nil =>
      rw [wordsFrom]
      cases word with
      | nil => simp [AreBlanks]
      | cons c word => simp
  | cons c cs ih =>
      rw [wordsFrom]
      by_cases hBlank : isBlank c = true
      · cases word with
        | nil => simp [hBlank, ih, AreBlanks]
        | cons d word => simp [hBlank]
      · simp [hBlank, ih, AreBlanks]

/- Only blanks have no words. -/
theorem normalizeBlanks_eq_nil_iff {cs : List Char} :
    normalizeBlanks cs = [] ↔ AreBlanks cs := by
  have hWords : words cs = [] ↔ AreBlanks cs := by
    rw [words, wordsFrom_eq_nil_iff]
    simp
  rw [← hWords, normalizeBlanks_eq_intercalate]
  constructor
  · intro hEmpty
    by_contra hSome
    rcases List.exists_cons_of_ne_nil hSome with ⟨w, ws, hList⟩
    have hMem : w ∈ words cs := by simp [hList]
    have hWord := (mem_wordsFrom (by simp) hMem).1
    rw [hList] at hEmpty
    cases ws with
    | nil => exact hWord (by simpa [List.intercalate] using hEmpty)
    | cons v ws => simp [List.intercalate] at hEmpty
  · intro hNone
    rw [hNone]
    rfl

/- Only blanks are trimmed to nothing. -/
theorem trim_eq_nil_iff {cs : List Char} :
    trim cs = [] ↔ AreBlanks cs := by
  rw [trim, trimEnd, List.reverse_eq_nil_iff, List.dropWhile_eq_nil_iff]
  constructor
  · intro hEnd x hMem
    rw [← List.takeWhile_append_dropWhile (p := isBlank) (l := cs)] at hMem
    rcases List.mem_append.1 hMem with hStart | hRest
    · exact List.mem_takeWhile_imp hStart
    · exact hEnd x (List.mem_reverse.2 hRest)
  · intro hBlanks x hMem
    rw [trimStart, hBlanks.dropWhile] at hMem
    cases hMem

theorem lowercase_eq_nil_iff {cs : List Char} :
    lowercase cs = [] ↔ cs = [] := by
  cases cs with
  | nil => simp [lowercase, lowercaseFrom]
  | cons c cs =>
      simp [lowercase, lowercaseFrom, lowerWithin_ne_nil]

end Text

namespace Scan

/-
  A needle is empty if its text is, and for normalised sources
  also if its text is blank.
-/
theorem needle_eq_empty_iff
    {source : TextSource}
    {text : String} :
    needle source text = "" ↔
      text = "" ∨
        source.isNormalized = true ∧ Text.AreBlanks text.toList := by
  rw [needle]
  cases source.isNormalized with
  | false => simp
  | true =>
      have hNil : text = "" ↔ text.toList = [] := by simp
      simp only [↓reduceIte, true_and, String.ofList_eq_empty_iff,
        Text.lowercase_eq_nil_iff, Text.normalizeBlanks_eq_nil_iff, hNil]
      constructor
      · exact .inr
      · rintro (hEmpty | hBlanks)
        · rw [hEmpty]
          exact .nil
        · exact hBlanks

------------------------------------------------------------
-- Written Texts
------------------------------------------------------------

variable {α β : Type} {c d inner : Cursor} {name : String}

/- An argument is not empty. -/
theorem rest_ne_nil_of_argument
    (h : argument name c = .ok inner d) :
    inner.rest ≠ [] := by
  rcases argument_eq_ok_iff.1 h with ⟨_, _, hSome, _, _, rfl⟩
  exact hSome

/- The text of an argument without quotes. -/
def bareText (resolve : Bool) (inner : Cursor) : String :=
  if resolve then String.ofList (Text.dropBackslashes inner.rest)
  else argumentText inner

/-
  The text that an argument writes, in quotes or bare.  Only a
  text in quotes can be written wrongly.
-/
def writtenText? (resolve : Bool) (inner : Cursor) : Option String :=
  if inner.peek?.any isQuote then
    (value? (quotedArgument resolve) inner).map Prod.fst
  else
    some (bareText resolve inner)

/- What is made of an argument depends on its quotes alone. -/
theorem textArgument_of_argument
    (h : argument name c = .ok inner d)
    (resolve : Bool) :
    textArgument name resolve c =
      if inner.peek?.any isQuote then
        match quotedArgument resolve inner with
        | .ok text _ =>
            if text.isEmpty then
              .error ⟨.emptyArgument name, inner.offset⟩ d
            else
              .ok (inner.offset, text) d
        | .error fault _ => .error fault d
      else
        .ok (inner.offset, bareText resolve inner) d := by
  rw [textArgument, bind_eq_of_ok h]
  by_cases hQuote : inner.peek?.any isQuote = true
  · rw [if_pos hQuote, if_pos hQuote]
    cases hRead : quotedArgument resolve inner with
    | error fault e =>
        have hWithin :
            within inner (quotedArgument resolve) d = .error fault d := by
          rw [within, hRead]
        exact bind_eq_error hWithin
    | ok text e =>
        have hWithin :
            within inner (quotedArgument resolve) d = .ok text d := by
          rw [within, hRead]
        rw [bind_eq_of_ok hWithin]
        dsimp only
        split
        · rfl
        · rfl
  · rw [if_neg hQuote, if_neg hQuote, bareText]
    cases resolve with
    | false => rfl
    | true => rfl

/- A text in quotes must not be empty; a bare one is read as it is. -/
theorem textArgument_eq_ok_iff
    {resolve : Bool}
    {o : Nat}
    {text : String} :
    textArgument name resolve c = .ok (o, text) d ↔
      ∃ inner, argument name c = .ok inner d ∧ o = inner.offset ∧
        writtenText? resolve inner = some text ∧
          (inner.peek?.any isQuote = true → text ≠ "") := by
  have hArgument :
      ∀ inner e, argument name c = .ok inner e →
        (textArgument name resolve c = .ok (o, text) d ↔
          e = d ∧ o = inner.offset ∧
            writtenText? resolve inner = some text ∧
              (inner.peek?.any isQuote = true → text ≠ "")) := by
    intro inner e hInner
    rw [textArgument_of_argument hInner, writtenText?, value?]
    by_cases hQuote : inner.peek?.any isQuote = true
    · cases hRead : quotedArgument resolve inner with
      | error fault f => simp [hQuote]
      | ok value f =>
          by_cases hEmpty : value = ""
          · simp [hQuote, hEmpty]
          · simp only [hQuote, ↓reduceIte, String.isEmpty_iff, hEmpty,
              EStateM.Result.ok.injEq, Prod.mk.injEq, Option.map_some,
              Option.some.injEq, ne_eq, forall_const]
            constructor
            · rintro ⟨⟨rfl, rfl⟩, rfl⟩
              exact ⟨rfl, rfl, rfl, hEmpty⟩
            · rintro ⟨rfl, rfl, rfl, _⟩
              exact ⟨⟨rfl, rfl⟩, rfl⟩
    · simp only [hQuote, Bool.false_eq_true, ↓reduceIte,
        EStateM.Result.ok.injEq, Prod.mk.injEq, Option.some.injEq, ne_eq,
        IsEmpty.forall_iff, and_true]
      constructor
      · rintro ⟨⟨rfl, hText⟩, rfl⟩
        exact ⟨rfl, rfl, hText⟩
      · rintro ⟨rfl, rfl, hText⟩
        exact ⟨⟨rfl, hText⟩, rfl⟩
  constructor
  · intro h
    rcases bind_eq_ok_iff.1 h with ⟨inner, e, hInner, _⟩
    rcases (hArgument inner e hInner).1 h with ⟨rfl, hRest⟩
    exact ⟨inner, hInner, hRest⟩
  · rintro ⟨inner, hInner, hRest⟩
    exact (hArgument inner d hInner).2 ⟨rfl, hRest⟩

/-
  The text of an argument is empty where the argument is a
  single backslash, and where there is nothing between quotes.
-/
theorem writtenText?_eq_empty_iff
    (h : argument name c = .ok inner d) :
    writtenText? true inner = some "" ↔
      inner.rest = ['\\'] ∨
        inner.peek?.any isQuote = true ∧
          ∃ e, quotedArgument true inner = .ok "" e := by
  have hSome := rest_ne_nil_of_argument h
  rw [writtenText?]
  by_cases hQuote : inner.peek?.any isQuote = true
  · have hOther : inner.rest ≠ ['\\'] := by
      intro hSlash
      rw [Cursor.peek?, hSlash] at hQuote
      revert hQuote
      decide
    rw [if_pos hQuote]
    simp [hQuote, hOther, value?_eq_some_iff]
  · rw [if_neg hQuote]
    simp [bareText, hQuote, hSome, Text.dropBackslashes_eq_nil_iff]

------------------------------------------------------------
-- Refusals
------------------------------------------------------------

/- The reader fails, and reports an empty argument. -/
def RefusesEmpty (act : Scan α) (c : Cursor) : Prop :=
  ∃ fault d, act c = .error fault d ∧ fault.cause.code = .emptyArgument

/- A reader that gives a value refuses nothing. -/
theorem not_refusesEmpty_of_ok
    {act : Scan α}
    {a : α}
    (h : act c = .ok a d) :
    ¬ RefusesEmpty act c := by
  rintro ⟨fault, e, hFault, _⟩
  rw [h] at hFault
  cases hFault

/- A sequence refuses what one of its readers does. -/
theorem refusesEmpty_bind_iff
    {act : Scan α}
    {next : α → Scan β} :
    RefusesEmpty (act >>= next) c ↔
      RefusesEmpty act c ∨
        ∃ a d, act c = .ok a d ∧ RefusesEmpty (next a) d := by
  cases hAct : act c with
  | error fault d =>
      simp [RefusesEmpty, bind_eq_error hAct, hAct]
  | ok a d =>
      simp [RefusesEmpty, bind_eq_of_ok hAct, hAct]

theorem refusesEmpty_bind_of_ok
    {act : Scan α}
    {next : α → Scan β}
    {a : α}
    (h : act c = .ok a d) :
    RefusesEmpty (act >>= next) c ↔ RefusesEmpty (next a) d := by
  rw [RefusesEmpty, RefusesEmpty, bind_eq_of_ok h]

theorem refusesEmpty_failAt_iff
    {o : Nat}
    {cause : Cause} :
    RefusesEmpty (failAt o cause : Scan α) c ↔
      cause.code = .emptyArgument := by
  simp [RefusesEmpty, failAt]

theorem refusesEmpty_fail_iff {cause : Cause} :
    RefusesEmpty (fail cause : Scan α) c ↔
      cause.code = .emptyArgument := by
  simp [RefusesEmpty, fail]

theorem not_refusesEmpty_balanced
    {opening closing : Char}
    {code : Code}
    (hCode : code ≠ .emptyArgument) :
    ¬ RefusesEmpty (balanced opening closing code) c := by
  rintro ⟨fault, d, hFault, hEmpty⟩
  unfold balanced at hFault
  split at hFault
  · cases hFault
    cases hEmpty
  · split at hFault
    · split at hFault
      · cases hFault
      · cases hFault
        exact hCode hEmpty
    · cases hFault
      cases hEmpty

theorem not_refusesEmpty_quoted (resolve : Bool) :
    ¬ RefusesEmpty (quoted resolve) c := by
  rintro ⟨fault, d, hFault, hEmpty⟩
  unfold quoted at hFault
  split at hFault
  · cases hFault
    cases hEmpty
  · split at hFault
    · split at hFault
      · cases hFault
      · cases hFault
        cases hEmpty
      · cases hFault
        cases hEmpty
    · cases hFault
      cases hEmpty

theorem within_eq_ok_iff
    {act : Scan α}
    {a : α}
    {e : Cursor} :
    within inner act c = .ok a e ↔ ∃ d, act inner = .ok a d ∧ e = c := by
  unfold within
  cases act inner with
  | error fault d => simp
  | ok b d => simp [eq_comm]

theorem not_refusesEmpty_within
    {act : Scan α}
    (h : ¬ RefusesEmpty act inner) :
    ¬ RefusesEmpty (within inner act) c := by
  rintro ⟨fault, d, hFault, hEmpty⟩
  unfold within at hFault
  split at hFault
  · cases hFault
  · next found e hInner =>
      cases hFault
      exact h ⟨fault, e, hInner, hEmpty⟩

theorem not_refusesEmpty_expectEnd (place : EndOf) :
    ¬ RefusesEmpty (expectEnd place) c := by
  rintro ⟨fault, d, hFault, hEmpty⟩
  unfold expectEnd at hFault
  split at hFault
  · cases hFault
  · cases hFault
    cases hEmpty

theorem not_refusesEmpty_quotedArgument (resolve : Bool) :
    ¬ RefusesEmpty (quotedArgument resolve) c := by
  rw [quotedArgument, refusesEmpty_bind_iff]
  rintro (hQuoted | ⟨text, d, _, hRest⟩)
  · exact not_refusesEmpty_quoted resolve hQuoted
  · rcases refusesEmpty_bind_iff.1 hRest with hEnd | ⟨_, e, _, hPure⟩
    · exact not_refusesEmpty_expectEnd _ hEnd
    · exact not_refusesEmpty_of_ok rfl hPure

------------------------------------------------------------
-- Refused Arguments
------------------------------------------------------------

theorem not_refusesEmpty_parenthesized (name : String) :
    ¬ RefusesEmpty (parenthesized name) c := by
  rw [parenthesized, refusesEmpty_bind_iff]
  rintro (hPeek | ⟨next, d, hPeek, hRest⟩)
  · exact not_refusesEmpty_of_ok rfl hPeek
  · split at hRest
    · exact not_refusesEmpty_balanced (by simp) hRest
    · rcases refusesEmpty_bind_iff.1 hRest with hEnd | ⟨atEnd, e, _, hFail⟩
      · exact not_refusesEmpty_of_ok rfl hEnd
      · rw [refusesEmpty_fail_iff] at hFail
        cases atEnd <;> cases hFail

/- What is blank between parentheses is no argument. -/
theorem refusesEmpty_argument_iff :
    RefusesEmpty (argument name) c ↔
      ∃ whole d, parenthesized name c = .ok whole d ∧
        Text.AreBlanks whole.rest := by
  rw [argument, refusesEmpty_bind_iff,
    or_iff_right (not_refusesEmpty_parenthesized name)]
  refine exists_congr fun whole => exists_congr fun d =>
    and_congr_right fun _ => ?_
  rw [← Text.trim_eq_nil_iff, ← List.isEmpty_iff]
  by_cases hBlank : (Text.trim whole.rest).isEmpty = true
  · simp [hBlank, refusesEmpty_failAt_iff, Cause.code]
  · rw [if_neg hBlank, iff_false_right hBlank]
    exact not_refusesEmpty_of_ok rfl

/- A text is refused where nothing stands between its quotes. -/
theorem refusesEmpty_textArgument_iff {resolve : Bool} :
    RefusesEmpty (textArgument name resolve) c ↔
      (∃ whole d, parenthesized name c = .ok whole d ∧
        Text.AreBlanks whole.rest) ∨
        ∃ inner d, argument name c = .ok inner d ∧
          inner.peek?.any isQuote = true ∧
            ∃ e, quotedArgument resolve inner = .ok "" e := by
  rw [textArgument, refusesEmpty_bind_iff, refusesEmpty_argument_iff]
  refine or_congr_right (exists_congr fun inner => exists_congr fun d =>
    and_congr_right fun _ => ?_)
  by_cases hQuote : inner.peek?.any isQuote = true
  · rw [if_pos hQuote, and_iff_right hQuote, refusesEmpty_bind_iff,
      or_iff_right (not_refusesEmpty_within
        (not_refusesEmpty_quotedArgument resolve))]
    constructor
    · rintro ⟨text, e, hRead, hRefuses⟩
      rcases within_eq_ok_iff.1 hRead with ⟨f, hText, _⟩
      split at hRefuses
      · next hEmpty =>
          have hNone : text = "" := by simpa using hEmpty
          exact ⟨f, hNone ▸ hText⟩
      · exact absurd hRefuses (not_refusesEmpty_of_ok rfl)
    · rintro ⟨e, hText⟩
      exact ⟨"", d, within_eq_ok_iff.2 ⟨e, hText, rfl⟩,
        refusesEmpty_failAt_iff.2 rfl⟩
  · rw [if_neg hQuote, iff_false_right (fun h => hQuote h.1)]
    split
    · exact not_refusesEmpty_of_ok rfl
    · exact not_refusesEmpty_of_ok rfl

/- A pattern is refused for other reasons than that it is empty. -/
theorem not_refusesEmpty_pattern
    (o : Nat)
    (ignoreCase : Bool)
    (source : String) :
    ¬ RefusesEmpty (pattern E o ignoreCase source) c := by
  unfold pattern
  split
  · exact not_refusesEmpty_of_ok rfl
  · rw [refusesEmpty_failAt_iff]
    simp [Cause.code]

/-
  A pseudo-class that takes a text reports an empty argument
  exactly if there are only blanks between its parentheses, or
  nothing between quotes.
-/
theorem refusesEmpty_meaning_iff
    {known : PseudoClass E}
    {resolve : Bool}
    (hText : known.resolves? = some resolve)
    (nested : Cursor → Except Fault (Selector E))
    (before : List (Selector E)) :
    RefusesEmpty (meaning nested before name known) c ↔
      (∃ whole d, parenthesized name c = .ok whole d ∧
        Text.AreBlanks whole.rest) ∨
        ∃ inner d, argument name c = .ok inner d ∧
          inner.peek?.any isQuote = true ∧
            ∃ e, quotedArgument resolve inner = .ok "" e := by
  rw [← refusesEmpty_textArgument_iff]
  cases known with
  | contains source =>
      cases hText
      rw [meaning, refusesEmpty_bind_iff, or_iff_left]
      rintro ⟨read, d, _, hRefuses⟩
      exact not_refusesEmpty_of_ok rfl hRefuses
  | matchesText source =>
      cases hText
      rw [meaning, refusesEmpty_bind_iff, or_iff_left]
      rintro ⟨read, d, _, hRefuses⟩
      rcases refusesEmpty_bind_iff.1 hRefuses with hPattern | ⟨p, e, _, hEnd⟩
      · exact not_refusesEmpty_pattern _ _ _ hPattern
      · exact not_refusesEmpty_of_ok rfl hEnd
  | _ => cases hText

------------------------------------------------------------
-- Refused Values
------------------------------------------------------------

theorem not_refusesEmpty_operator? (ops : List AttributeOperator) :
    ¬ RefusesEmpty (operator? ops) c := by
  induction ops generalizing c with
  | nil => exact not_refusesEmpty_of_ok rfl
  | cons op ops ih =>
      rw [operator?, refusesEmpty_bind_iff]
      rintro (hChomp | ⟨found, d, _, hRest⟩)
      · rcases hChomp with ⟨fault, d, hFault, _⟩
        unfold chomp at hFault
        split at hFault
        · cases hFault
        · cases hFault
      · split at hRest
        · exact not_refusesEmpty_of_ok rfl hRest
        · exact ih hRest

theorem not_refusesEmpty_attributeValue (op : AttributeOperator) :
    ¬ RefusesEmpty (attributeValue op) c := by
  rw [attributeValue, refusesEmpty_bind_iff]
  rintro (hPeek | ⟨next, d, _, hRest⟩)
  · exact not_refusesEmpty_of_ok rfl hPeek
  · split at hRest
    · rcases refusesEmpty_bind_iff.1 hRest with hQuoted | ⟨text, e, _, hRest⟩
      · exact not_refusesEmpty_quoted _ hQuoted
      · rcases refusesEmpty_bind_iff.1 hRest with hBlanks | ⟨_, f, _, hRest⟩
        · exact not_refusesEmpty_of_ok rfl hBlanks
        · rcases refusesEmpty_bind_iff.1 hRest with hEnd | ⟨_, g, _, hPure⟩
          · exact not_refusesEmpty_expectEnd _ hEnd
          · exact not_refusesEmpty_of_ok rfl hPure
    · exact not_refusesEmpty_of_ok rfl hRest

theorem not_refusesEmpty_valueTest
    (op : AttributeOperator)
    (o : Nat)
    (value : String) :
    ¬ RefusesEmpty (valueTest E op o value) c := by
  cases op with
  | compare comparison => exact not_refusesEmpty_of_ok rfl
  | matchesPattern =>
      rw [valueTest, map_eq_pure_bind, refusesEmpty_bind_iff]
      rintro (hPattern | ⟨p, d, _, hPure⟩)
      · exact not_refusesEmpty_pattern _ _ _ hPattern
      · exact not_refusesEmpty_of_ok rfl hPure

/-
  A value is refused exactly if it is empty and the operator
  asks for more.
-/
theorem refusesEmpty_operatorAndValue_iff :
    RefusesEmpty (operatorAndValue E name) c ↔
      ∃ op d, operator? AttributeOperator.all c = .ok (some op) d ∧
        op.allowsEmpty = false ∧
          ∃ e, attributeValue op d.skipBlanks = .ok "" e := by
  rw [operatorAndValue, refusesEmpty_bind_iff,
    or_iff_right (not_refusesEmpty_operator? _)]
  have hValue :
      ∀ (op : AttributeOperator) (d : Cursor),
        RefusesEmpty
            (do
              let _ ← skipBlanks
              let start ← offset
              let value ← attributeValue op
              if value.isEmpty && !op.allowsEmpty then
                failAt start (.emptyValue name op.sign)
              else
                valueTest E op start value : Scan (AttributeTest E)) d ↔
          op.allowsEmpty = false ∧
            ∃ e, attributeValue op d.skipBlanks = .ok "" e := by
    intro op d
    have hBlanks : skipBlanks d = .ok d.atBlank d.skipBlanks := rfl
    have hStart :
        offset d.skipBlanks = .ok d.skipBlanks.offset d.skipBlanks := rfl
    rw [refusesEmpty_bind_of_ok hBlanks, refusesEmpty_bind_of_ok hStart,
      refusesEmpty_bind_iff,
      or_iff_right (not_refusesEmpty_attributeValue op)]
    constructor
    · rintro ⟨value, e, hRead, hRefuses⟩
      split at hRefuses
      · next hEmpty =>
          simp only [Bool.and_eq_true, Bool.not_eq_true',
            String.isEmpty_iff] at hEmpty
          exact ⟨hEmpty.2, e, hEmpty.1 ▸ hRead⟩
      · exact absurd hRefuses (not_refusesEmpty_valueTest _ _ _)
    · rintro ⟨hAsks, e, hRead⟩
      refine ⟨"", e, hRead, ?_⟩
      rw [hAsks]
      exact refusesEmpty_failAt_iff.2 rfl
  constructor
  · rintro ⟨found, d, hFound, hRefuses⟩
    cases found with
    | none =>
        rw [refusesEmpty_fail_iff] at hRefuses
        cases hRefuses
    | some op => exact ⟨op, d, hFound, (hValue op d).1 hRefuses⟩
  · rintro ⟨op, d, hFound, hEmpty⟩
    exact ⟨some op, d, hFound, (hValue op d).2 hEmpty⟩

end Scan

end TreeQuery
