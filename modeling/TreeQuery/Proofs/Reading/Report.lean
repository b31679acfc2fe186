import TreeQuery.Proofs.Reading.Stride
import TreeQuery.Proofs.Reading.Shift

/-
  Where faults are found.

  A reader of a window finds a fault where one of its
  characters begins, or at its end.  It is never a quoted text
  that does not end: within brackets every quoted text ends.

  Key definitions include:
    * `Fault.ArisesIn`
    * `Scan.FaultsIn`

  Main statements:
    * `Scan.faultsIn_bracketed`
    * `Scan.faultsIn_meaning`
    * `Scan.faultsIn_group`
    * `Scan.arisesIn_of_readPart`
-/

namespace TreeQuery

variable {E : Engine}

/-
  The fault is found at a place of the window, and it is not a
  quoted text without an end.
-/
structure Fault.ArisesIn (fault : Fault) (part : Cursor) : Prop where
  inside : part.Holds fault.offset
  closed : fault.cause.code ≠ .unterminatedString

/- What is found in a window is found in all that enclose it. -/
theorem Fault.ArisesIn.of_encloses
    {fault : Fault}
    {outer inner : Cursor}
    (hEncloses : outer.Encloses inner)
    (h : fault.ArisesIn inner) :
    fault.ArisesIn outer :=
  ⟨hEncloses.holds h.inside, h.closed⟩

namespace Scan

variable {α β : Type} {part c : Cursor}

------------------------------------------------------------
-- Readers
------------------------------------------------------------

/- Whatever fault the reader finds from here, it arises in the window. -/
def FaultsIn (part : Cursor) (act : Scan α) (c : Cursor) : Prop :=
  ∀ fault d, act c = .error fault d → fault.ArisesIn part

/- A reader that gives a value finds no fault. -/
theorem FaultsIn.of_ok
    {act : Scan α}
    {a : α}
    {d : Cursor}
    (h : act c = .ok a d) :
    FaultsIn part act c := by
  intro fault e hFault
  rw [h] at hFault
  cases hFault

theorem FaultsIn.pure (a : α) : FaultsIn part (pure a : Scan α) c :=
  .of_ok rfl

theorem FaultsIn.bind
    {act : Scan α}
    {next : α → Scan β}
    (hAct : FaultsIn part act c)
    (hNext : ∀ a d, act c = .ok a d → FaultsIn part (next a) d) :
    FaultsIn part (act >>= next) c := by
  intro fault e hFault
  cases h : act c with
  | error found d =>
      rw [bind_eq_error h] at hFault
      cases hFault
      exact hAct _ _ h
  | ok a d =>
      rw [bind_eq_of_ok h] at hFault
      exact hNext a d h _ _ hFault

theorem FaultsIn.map
    (f : α → β)
    {act : Scan α}
    (hAct : FaultsIn part act c) :
    FaultsIn part (f <$> act) c := by
  intro fault d hFault
  simp only [Functor.map, EStateM.map] at hFault
  cases h : act c with
  | error found e =>
      rw [h] at hFault
      cases hFault
      exact hAct _ _ h
  | ok a e => simp [h] at hFault

theorem FaultsIn.ite
    {p : Prop}
    [Decidable p]
    {act other : Scan α}
    (hAct : p → FaultsIn part act c)
    (hOther : ¬ p → FaultsIn part other c) :
    FaultsIn part (if p then act else other) c := by
  split
  · next hTrue => exact hAct hTrue
  · next hFalse => exact hOther hFalse

theorem faultsIn_failAt
    {o : Nat}
    {cause : Cause}
    (hHolds : part.Holds o)
    (hCode : cause.code ≠ .unterminatedString) :
    FaultsIn part (failAt o cause : Scan α) c := by
  intro fault d hFault
  cases hFault
  exact ⟨hHolds, hCode⟩

theorem faultsIn_fail
    {cause : Cause}
    (hReach : part.Reaches c)
    (hCode : cause.code ≠ .unterminatedString) :
    FaultsIn part (fail cause : Scan α) c :=
  faultsIn_failAt hReach.holds hCode

/- The start of an enclosed window is a place of the outer one. -/
theorem holds_of_encloses
    {inner : Cursor}
    (h : part.Encloses inner) :
    part.Holds inner.offset :=
  h.holds (Cursor.Reaches.refl inner).holds

/- A fault of an enclosed window is one of the outer window. -/
theorem faultsIn_within
    {inner : Cursor}
    {act : Scan α}
    (hEncloses : part.Encloses inner)
    (hAct : FaultsIn inner act inner) :
    FaultsIn part (within inner act) c := by
  intro fault d hFault
  unfold within at hFault
  split at hFault
  · cases hFault
  · next found e hInner =>
      cases hFault
      exact (hAct _ _ hInner).of_encloses hEncloses

theorem faultsIn_expectEnd
    (hReach : part.Reaches c)
    (place : EndOf) :
    FaultsIn part (expectEnd place) c := by
  intro fault d hFault
  unfold expectEnd at hFault
  split at hFault
  · cases hFault
  · cases hFault
    exact ⟨hReach.holds, by simp [Cause.code]⟩

theorem faultsIn_chomp (text : String) :
    FaultsIn part (chomp text) c := by
  intro fault d hFault
  unfold chomp at hFault
  split at hFault
  · cases hFault
  · cases hFault

------------------------------------------------------------
-- Tokens
------------------------------------------------------------

/- A name is cut off only by a backslash at the end of the text. -/
theorem exists_of_readIdentifier?_none
    {cs : List Char}
    (h : readIdentifier? cs = none) :
    ∃ xs, cs = xs ++ ['\\'] := by
  fun_induction readIdentifier? cs with
  | case1 => simp at h
  | case2 cs hEscape =>
      cases eq_nil_of_readEscape? hEscape
      exact ⟨[], rfl⟩
  | case3 cs d after hEscape _ ih =>
      rcases ih (by simpa [prepend] using h) with ⟨xs, rfl⟩
      rcases exists_of_readEscape? hEscape with ⟨x, tail, rfl, _⟩
      exact ⟨'\\' :: x :: (tail ++ xs), by simp⟩
  | case4 c cs _ hChar ih =>
      rcases ih (by simpa [prepend] using h) with ⟨xs, rfl⟩
      exact ⟨c :: xs, rfl⟩
  | case5 c cs _ hChar => simp at h

/- The fault of an escape at the end is found at its backslash. -/
theorem faultsIn_identifier (hReach : part.Reaches c) :
    FaultsIn part identifier c := by
  intro fault d hFault
  unfold identifier at hFault
  split at hFault
  · cases hFault
    refine ⟨hReach.holds, ?_⟩
    cases c.peek? with
    | none => simp [Cause.code]
    | some x => simp [Cause.code]
  · cases hFault
  · next hNone =>
      cases hFault
      rcases exists_of_readIdentifier?_none hNone with ⟨xs, hSplit⟩
      have hSlash : '\\'.utf8Size = 1 := rfl
      have hPlace :
          part.Holds (⟨c.offset + Text.byteLength xs, ['\\']⟩ : Cursor).offset :=
        (hReach.trans ⟨xs, hSplit, rfl⟩).holds
      refine ⟨?_, by simp [Cause.code]⟩
      simp only [Cursor.toEnd, Cursor.moveTo, hSplit,
        Text.byteLength_append, Text.byteLength_cons, Text.byteLength_nil,
        hSlash]
      exact hPlace

theorem faultsIn_balanced
    (hReach : part.Reaches c)
    (opening closing : Char)
    {code : Code}
    (hCode : code ≠ .unterminatedString) :
    FaultsIn part (balanced opening closing code) c := by
  intro fault d hFault
  unfold balanced at hFault
  split at hFault
  · cases hFault
    exact ⟨hReach.holds, by simp [Cause.code]⟩
  · split at hFault
    · split at hFault
      · cases hFault
      · cases hFault
        exact ⟨hReach.holds, hCode⟩
    · cases hFault
      exact ⟨hReach.holds, by simp [Cause.code]⟩

------------------------------------------------------------
-- Attribute Tests
------------------------------------------------------------

theorem advances_operator? (ops : List AttributeOperator) :
    Advances (operator? ops) := by
  induction ops with
  | nil => exact .pure none
  | cons op ops ih =>
      exact (advances_chomp op.sign).bind fun found => .ite (.pure _) ih

theorem advances_attributeName : Advances attributeName := by
  refine advances_identifier.bind fun name c => ?_
  fun_induction nameParts name c with
  | case1 name c x _ _ _ segment e hRead _ _ ih =>
      exact (advances_identifier.reaches c.reaches_advance hRead).trans ih
  | case2 name c x _ _ _ fault e hRead =>
      have hNext := advances_identifier c.advance
      rw [hRead] at hNext
      exact c.reaches_advance.trans hNext
  | case3 name c x _ _ _ => exact .refl c
  | case4 name c _ => exact .refl c

theorem faultsIn_nameParts
    (hReach : part.Reaches c)
    (name : String) :
    FaultsIn part (nameParts name) c := by
  intro fault d hFault
  fun_induction nameParts name c with
  | case1 name c x _ _ _ segment e hRead _ _ ih =>
      have hNext := hReach.trans c.reaches_advance
      exact ih (advances_identifier.reaches hNext hRead) hFault
  | case2 name c x _ _ _ found e hRead =>
      cases hFault
      have hNext := hReach.trans c.reaches_advance
      exact faultsIn_identifier hNext _ _ hRead
  | case3 name c x _ _ _ => cases hFault
  | case4 name c _ => cases hFault

theorem faultsIn_attributeName (hReach : part.Reaches c) :
    FaultsIn part attributeName c :=
  (faultsIn_identifier hReach).bind fun name _ h =>
    faultsIn_nameParts (advances_identifier.reaches hReach h) name

theorem faultsIn_operator? (ops : List AttributeOperator) :
    FaultsIn part (operator? ops) c := by
  induction ops generalizing c with
  | nil => exact .pure none
  | cons op ops ih =>
      exact (faultsIn_chomp op.sign).bind fun found d _ =>
        .ite (fun _ => .pure _) fun _ => ih

theorem faultsIn_pattern
    {o : Nat}
    (hHolds : part.Holds o)
    (ignoreCase : Bool)
    (source : String) :
    FaultsIn part (pattern E o ignoreCase source) c := by
  unfold pattern
  split
  · exact .pure _
  · exact faultsIn_failAt hHolds (by simp [Cause.code])

/- A value in quotes ends, since the bracket does. -/
theorem faultsIn_attributeValue
    (hReach : part.Reaches c)
    (hSpans : Spans '[' ']' c.rest)
    (op : AttributeOperator) :
    FaultsIn part (attributeValue op) c := by
  refine .bind (.of_ok rfl) fun next d hPeek => .ite ?_ ?_
  · intro hQuote
    cases hPeek
    rcases exists_of_peek? hQuote with ⟨q, cs, hCons, hQuote⟩
    rcases quoted_of_spans hQuote hCons (by decide) hSpans
      (op != .matchesPattern) with ⟨value, e, hValue⟩
    refine .bind (.of_ok hValue) fun _ f hRead => ?_
    refine .bind (.of_ok rfl) fun _ g hBlanks => ?_
    have hNext := (advances_quoted _).reaches hReach hRead
    have hLast := advances_skipBlanks.reaches hNext hBlanks
    exact (faultsIn_expectEnd hLast _).bind fun _ _ _ => .pure _
  · intro _
    exact .bind (.of_ok rfl) fun _ _ _ => .pure _

theorem faultsIn_valueTest
    {o : Nat}
    (hHolds : part.Holds o)
    (op : AttributeOperator)
    (value : String) :
    FaultsIn part (valueTest E op o value) c := by
  cases op with
  | compare comparison => exact .pure _
  | matchesPattern => exact (faultsIn_pattern hHolds false value).map _

theorem faultsIn_operatorAndValue
    (hReach : part.Reaches c)
    (hSpans : Spans '[' ']' c.rest)
    (name : String) :
    FaultsIn part (operatorAndValue E name) c := by
  have hSquare : areBrackets '[' ']' = true := rfl
  refine (faultsIn_operator? _).bind fun found d hFound => ?_
  have hNext := (advances_operator? _).reaches hReach hFound
  have hSpans' := (strides_operator?.passes hSquare _ _ _ hFound).spans hSpans
  cases found with
  | none => exact faultsIn_fail hNext (by simp [Cause.code])
  | some op =>
      refine .bind (.of_ok rfl) fun spaced e hBlanks => ?_
      have hStart := advances_skipBlanks.reaches hNext hBlanks
      have hValue := (strides_skipBlanks.passes hSquare _ _ _ hBlanks).spans hSpans'
      refine .bind (.of_ok rfl) fun start f hOffset => ?_
      cases hOffset
      refine (faultsIn_attributeValue hStart hValue op).bind
        fun value g _ => .ite ?_ ?_
      · exact fun _ => faultsIn_failAt hStart.holds (by simp [Cause.code])
      · exact fun _ => faultsIn_valueTest hStart.holds op value

/- What stands between square brackets has its faults there. -/
theorem faultsIn_bracketed (hSpans : Spans '[' ']' part.rest) :
    FaultsIn part (bracketed E) part := by
  have hSquare : areBrackets '[' ']' = true := rfl
  refine .bind (.of_ok rfl) fun spaced d hBlanks => ?_
  have hReach := advances_skipBlanks.reaches (.refl part) hBlanks
  have hSpans' := (strides_skipBlanks.passes hSquare _ _ _ hBlanks).spans hSpans
  refine (faultsIn_chomp "^").bind fun caret e hCaret => ?_
  have hNext := (advances_chomp "^").reaches hReach hCaret
  have hCaret' : Passes '[' ']' (chomp "^") :=
    (strides_chomp (by decide)).passes hSquare
  have hSpans'' := (hCaret' _ _ _ hCaret).spans hSpans'
  refine .ite ?_ ?_
  · intro _
    refine (faultsIn_identifier hNext).bind fun start f hStart => ?_
    have hBehind := advances_identifier.reaches hNext hStart
    refine .bind (.of_ok rfl) fun _ g hBlanks' => ?_
    have hEnd := advances_skipBlanks.reaches hBehind hBlanks'
    exact (faultsIn_expectEnd hEnd _).bind fun _ _ _ => .pure _
  · intro _
    refine (faultsIn_attributeName hNext).bind fun name f hName => ?_
    have hBehind := advances_attributeName.reaches hNext hName
    have hRest := (strides_attributeName.passes hSquare _ _ _ hName).spans hSpans''
    refine .bind (.of_ok rfl) fun _ g hBlanks' => ?_
    have hEnd := advances_skipBlanks.reaches hBehind hBlanks'
    have hRest' := (strides_skipBlanks.passes hSquare _ _ _ hBlanks').spans hRest
    refine .bind (.of_ok rfl) fun ended h hAtEnd => ?_
    cases hAtEnd
    refine .ite (fun _ => .pure _) fun _ => ?_
    exact (faultsIn_operatorAndValue hEnd hRest' name).bind
      fun _ _ _ => .pure _

theorem faultsIn_attributeTest (hReach : part.Reaches c) :
    FaultsIn part (attributeTest E) c := by
  have hClosing : ']' ∉ ['\\', '"', '\'', '['] := by decide
  refine (faultsIn_balanced hReach '[' ']' (by simp)).bind
    fun inner d hRead => ?_
  have hSpans := ((balanced_eq_ok_iff hClosing).1 hRead).1
  exact faultsIn_within (hReach.encloses (encloses_balanced hClosing hRead))
    (faultsIn_bracketed hSpans)

------------------------------------------------------------
-- Arguments
------------------------------------------------------------

theorem faultsIn_argument
    (hReach : part.Reaches c)
    (name : String) :
    FaultsIn part (argument name) c := by
  have hClosing : ')' ∉ ['\\', '"', '\'', '('] := by decide
  have hWhole : FaultsIn part (parenthesized name) c := by
    refine .bind (.of_ok rfl) fun next d hPeek => ?_
    cases hPeek
    refine .ite ?_ ?_
    · exact fun _ => faultsIn_balanced hReach '(' ')' (by simp)
    · intro _
      refine .bind (.of_ok rfl) fun ended e hAtEnd => ?_
      cases hAtEnd
      refine faultsIn_fail hReach ?_
      cases c.isAtEnd with
      | true => simp [Cause.code]
      | false => simp [Cause.code]
  refine hWhole.bind fun whole d hRead => .ite ?_ fun _ => .pure _
  intro _
  refine faultsIn_failAt (holds_of_encloses (hReach.encloses ?_))
    (by simp [Cause.code])
  rcases bind_eq_ok_iff.1 hRead with ⟨next, e, hPeek, hRead⟩
  cases hPeek
  split at hRead
  · exact encloses_balanced hClosing hRead
  · rcases bind_eq_ok_iff.1 hRead with ⟨_, f, _, hFail⟩
    simp [fail] at hFail

theorem faultsIn_indexArgument
    (hReach : part.Reaches c)
    (name : String) :
    FaultsIn part (indexArgument name) c := by
  refine (faultsIn_argument hReach name).bind fun inner d hInner => ?_
  split
  · exact .pure _
  · have hEncloses := hReach.encloses (encloses_argument hInner)
    exact faultsIn_failAt (holds_of_encloses hEncloses) (by simp [Cause.code])

theorem faultsIn_formulaArgument
    (hReach : part.Reaches c)
    (name : String) :
    FaultsIn part (formulaArgument name) c := by
  refine (faultsIn_argument hReach name).bind fun inner d hInner => ?_
  split
  · exact .pure _
  · have hEncloses := hReach.encloses (encloses_argument hInner)
    exact faultsIn_failAt (holds_of_encloses hEncloses) (by simp [Cause.code])

/- A text in quotes ends, since the parenthesis does. -/
theorem faultsIn_quotedArgument
    {name : String}
    {inner d : Cursor}
    (hInner : argument name c = .ok inner d)
    (hQuote : inner.peek?.any isQuote = true)
    (resolve : Bool) :
    FaultsIn inner (quotedArgument resolve) inner := by
  rcases exists_of_peek? hQuote with ⟨q, cs, hCons, hQuote⟩
  rcases quoted_of_argument hQuote hCons hInner resolve with
    ⟨value, e, hValue⟩
  refine .bind (.of_ok hValue) fun _ f hRead => ?_
  have hNext := (advances_quoted _).reaches (.refl inner) hRead
  exact (faultsIn_expectEnd hNext _).bind fun _ _ _ => .pure _

/- The offset that a text is given with is one of the window. -/
theorem holds_of_textArgument
    {name : String}
    {resolve : Bool}
    {read : Nat × String}
    {d : Cursor}
    (hReach : part.Reaches c)
    (h : textArgument name resolve c = .ok read d) :
    part.Holds read.1 := by
  rcases bind_eq_ok_iff.1 h with ⟨inner, e, hInner, hRest⟩
  have hStart :=
    holds_of_encloses (hReach.encloses (encloses_argument hInner))
  split at hRest
  · rcases bind_eq_ok_iff.1 hRest with ⟨text, f, _, hRest⟩
    split at hRest
    · simp [failAt] at hRest
    · rcases pure_eq_ok_iff.1 hRest with ⟨rfl, _⟩
      exact hStart
  · split at hRest
    · rcases pure_eq_ok_iff.1 hRest with ⟨rfl, _⟩
      exact hStart
    · rcases pure_eq_ok_iff.1 hRest with ⟨rfl, _⟩
      exact hStart

theorem faultsIn_textArgument
    (hReach : part.Reaches c)
    (name : String)
    (resolve : Bool) :
    FaultsIn part (textArgument name resolve) c := by
  refine (faultsIn_argument hReach name).bind fun inner d hInner => ?_
  have hEncloses := hReach.encloses (encloses_argument hInner)
  refine .ite ?_ fun _ => .ite (fun _ => .pure _) fun _ => .pure _
  intro hQuote
  have hQuoted := faultsIn_quotedArgument hInner hQuote resolve
  refine (faultsIn_within hEncloses hQuoted).bind fun text e _ => .ite ?_ ?_
  · intro _
    exact faultsIn_failAt (holds_of_encloses hEncloses) (by simp [Cause.code])
  · exact fun _ => .pure _

------------------------------------------------------------
-- Parts
------------------------------------------------------------

section Nested

variable
  {nested : Cursor → Except Fault (Selector E)}
  (hNested :
    ∀ inner fault, part.Encloses inner →
      nested inner = .error fault → fault.ArisesIn inner)

include hNested

/- A nested selector is asked for inside of the window alone. -/
theorem faultsIn_meaning
    (hReach : part.Reaches c)
    (before : List (Selector E))
    (name : String)
    (known : PseudoClass E) :
    FaultsIn part (meaning nested before name known) c := by
  cases known with
  | plain s => exact .pure s
  | index test =>
      exact (faultsIn_indexArgument hReach name).bind fun _ _ _ => .pure _
  | position kind =>
      exact (faultsIn_formulaArgument hReach name).bind fun _ _ _ => .pure _
  | nested nesting =>
      refine (faultsIn_argument hReach name).bind fun inner d hInner => ?_
      have hEncloses := hReach.encloses (encloses_argument hInner)
      refine .bind ?_ fun _ _ _ => .pure _
      intro fault e hFault
      cases hRead : nested inner with
      | ok s =>
          rw [hRead] at hFault
          cases hFault
      | error found =>
          rw [hRead] at hFault
          cases hFault
          exact (hNested inner _ hEncloses hRead).of_encloses hEncloses
  | contains source =>
      exact (faultsIn_textArgument hReach name true).bind
        fun _ _ _ => .pure _
  | matchesText source =>
      refine (faultsIn_textArgument hReach name false).bind
        fun read d hRead => ?_
      have hStart := holds_of_textArgument hReach hRead
      exact (faultsIn_pattern hStart _ read.2).bind fun _ _ _ => .pure _

theorem faultsIn_pseudoClass
    (hReach : part.Reaches c)
    (before : List (Selector E)) :
    FaultsIn part (pseudoClass nested before) c := by
  refine .bind (.of_ok rfl) fun start d hStart => ?_
  cases hStart
  refine .bind (.of_ok rfl) fun _ e hAdvance => ?_
  have hNext := advances_advance.reaches hReach hAdvance
  have hName : FaultsIn part (pseudoClassName c.offset) e := by
    refine .bind (.of_ok rfl) fun next f hPeek => ?_
    cases hPeek
    refine .ite ?_ ?_
    · exact fun _ => faultsIn_failAt hReach.holds (by simp [Cause.code])
    · exact fun _ => (faultsIn_identifier hNext).map _
  refine hName.bind fun name f hRead => ?_
  have hMore := (advances_pseudoClassName _).reaches hNext hRead
  split
  · exact faultsIn_meaning hNested hMore before name _
  · exact faultsIn_failAt hReach.holds (by simp [Cause.code])

omit hNested in
theorem faultsIn_tagName (hReach : part.Reaches c) :
    FaultsIn part tagName c :=
  (faultsIn_identifier hReach).map _

omit hNested in
/- Behind the bar of a namespace a star or a name is read. -/
theorem faultsIn_local
    (hReach : part.Reaches c)
    (whole : Selector E)
    (make : String → Selector E) :
    FaultsIn part
      (do if ← chomp "*" then return whole else return make (← tagName))
      c := by
  refine (faultsIn_chomp "*").bind fun star d hStar => ?_
  have hNext := (advances_chomp "*").reaches hReach hStar
  refine .ite (fun _ => .pure _) fun _ => ?_
  exact (faultsIn_tagName hNext).bind fun _ _ _ => .pure _

theorem faultsIn_partWith
    (hReach : part.Reaches c)
    (before : List (Selector E))
    (start : PartStart) :
    FaultsIn part (partWith nested before start) c := by
  have hMarked :
      ∀ make : String → Selector E, FaultsIn part (markedName make) c := by
    intro make
    refine .bind (.of_ok rfl) fun _ d hAdvance => ?_
    have hNext := advances_advance.reaches hReach hAdvance
    exact (faultsIn_identifier hNext).bind fun _ _ _ => .pure _
  cases start with
  | star =>
      refine .bind (.of_ok rfl) fun _ d hAdvance => ?_
      have hNext := advances_advance.reaches hReach hAdvance
      refine (faultsIn_chomp "|").bind fun bar e hBar => ?_
      have hMore := (advances_chomp "|").reaches hNext hBar
      exact .ite (fun _ => faultsIn_local hMore _ _) fun _ => .pure _
  | hash => exact hMarked .id
  | dot => exact hMarked .className
  | bracket => exact faultsIn_attributeTest hReach
  | colon => exact faultsIn_pseudoClass hNested hReach before
  | name =>
      refine (faultsIn_tagName hReach).bind fun name d hName => ?_
      have hNext := advances_tagName.reaches hReach hName
      refine (faultsIn_chomp "|").bind fun bar e hBar => ?_
      have hMore := (advances_chomp "|").reaches hNext hBar
      exact .ite (fun _ => faultsIn_local hMore _ _) fun _ => .pure _

theorem faultsIn_part?
    (hReach : part.Reaches c)
    (before : List (Selector E)) :
    FaultsIn part (part? nested before) c := by
  intro fault d hFault
  unfold part? at hFault
  split at hFault
  · exact (faultsIn_partWith hNested hReach before _).map some _ _ hFault
  · cases hFault

------------------------------------------------------------
-- Chains and Groups
------------------------------------------------------------

theorem faultsIn_partsFrom
    (hReach : part.Reaches c)
    (before : List (Selector E)) :
    FaultsIn part (partsFrom nested before) c := by
  intro fault d hFault
  fun_induction partsFrom nested before c with
  | case1 before c s e h _ ih =>
      exact ih ((advances_part? nested before).reaches hReach h) hFault
  | case2 before c e h => cases hFault
  | case3 before c found e h =>
      cases hFault
      exact faultsIn_part? hNested hReach before _ _ h

omit hNested in
theorem code_expectedSelector (found : Option Char) :
    (Cause.expectedSelector found).code ≠ .unterminatedString := by
  cases found with
  | none => simp [Cause.code]
  | some x =>
      simp only [Cause.code, Cause.codeOfFound]
      split
      · simp
      · simp

theorem faultsIn_compound (hReach : part.Reaches c) :
    FaultsIn part (compound nested) c := by
  refine (faultsIn_partsFrom hNested hReach []).bind fun parts d h => ?_
  have hNext := (advances_partsFrom nested []).reaches hReach h
  refine .ite ?_ fun _ => .pure _
  intro _
  refine .bind (.of_ok rfl) fun next e hPeek => ?_
  cases hPeek
  exact faultsIn_fail hNext (code_expectedSelector _)

omit hNested in
theorem faultsIn_link (hReach : part.Reaches c) :
    FaultsIn part link c := by
  refine .bind (.of_ok rfl) fun spaced d hBlanks => ?_
  have hNext := advances_skipBlanks.reaches hReach hBlanks
  refine .bind (.of_ok rfl) fun next e hPeek => ?_
  cases hPeek
  cases d.peek? with
  | none => exact .pure _
  | some x =>
      refine .ite (fun _ => .pure _) fun _ => ?_
      cases combinator? x with
      | none =>
          refine .ite (fun _ => .pure _) fun _ => ?_
          exact faultsIn_fail hNext (code_expectedSelector (some x))
      | some combinator =>
          refine .bind (.of_ok rfl) fun _ f hAdvance => ?_
          refine .bind (.of_ok rfl) fun _ g hBlanks' => ?_
          refine .bind (.of_ok rfl) fun ended h hAtEnd => ?_
          cases hAtEnd
          have hSign := advances_advance.reaches hNext hAdvance
          have hMore := advances_skipBlanks.reaches hSign hBlanks'
          refine .ite ?_ fun _ => .pure _
          exact fun _ => faultsIn_fail hMore (by simp [Cause.code])

theorem faultsIn_next? (hReach : part.Reaches c) :
    FaultsIn part (next? nested) c := by
  refine (faultsIn_link hReach).bind fun step d hLink => ?_
  have hNext := advances_link.reaches hReach hLink
  cases step with
  | finished => exact .pure _
  | related combinator =>
      exact (faultsIn_compound hNested hNext).bind fun _ _ _ => .pure _

theorem faultsIn_chainFrom
    (hReach : part.Reaches c)
    (left : Selector E) :
    FaultsIn part (chainFrom nested left) c := by
  intro fault d hFault
  fun_induction chainFrom nested left c with
  | case1 left c combinator right e h _ ih =>
      exact ih ((advances_next? nested).reaches hReach h) hFault
  | case2 left c e h => cases hFault
  | case3 left c found e h =>
      cases hFault
      exact faultsIn_next? hNested hReach _ _ h

theorem faultsIn_branch (hReach : part.Reaches c) :
    FaultsIn part (branch nested) c := by
  refine .bind (.of_ok rfl) fun _ d hBlanks => ?_
  have hNext := advances_skipBlanks.reaches hReach hBlanks
  refine .bind (.of_ok rfl) fun next e hPeek => ?_
  cases hPeek
  refine .ite ?_ fun _ => ?_
  · exact fun _ => faultsIn_fail hNext (by simp [Cause.code])
  · have hChain : FaultsIn part (chain nested) d := by
      refine .bind (.of_ok rfl) fun first f hFirst => ?_
      cases hFirst
      refine .ite ?_ fun _ => ?_
      · exact fun _ => faultsIn_chainFrom hNested hNext .scope
      · refine (faultsIn_compound hNested hNext).bind fun s f hRead => ?_
        have hMore := (advances_compound nested).reaches hNext hRead
        exact faultsIn_chainFrom hNested hMore s
    exact hChain.bind fun s f _ => (faultsIn_chomp ",").bind
      fun _ _ _ => .pure _

theorem faultsIn_branchesFrom
    (hReach : part.Reaches c)
    (before : List (Selector E)) :
    FaultsIn part (branchesFrom nested before) c := by
  intro fault d hFault
  fun_induction branchesFrom nested before c with
  | case1 before c s e h _ ih =>
      exact ih ((advances_branch nested).reaches hReach h) hFault
  | case2 before c s e h => cases hFault
  | case3 before c found e h =>
      cases hFault
      exact faultsIn_branch hNested hReach _ _ h

theorem faultsIn_group : FaultsIn part (group nested) part :=
  (faultsIn_branchesFrom hNested (.refl part) []).bind
    fun _ _ _ => .pure _

end Nested

/-
  A window that is no selector has its fault in it.  The
  induction is on the windows inside of it.
-/
theorem arisesIn_of_readPart
    {fault : Fault}
    (h : readPart E part = .error fault) :
    fault.ArisesIn part := by
  induction part using Cursor.wellFounded_encloses.induction
    generalizing fault with
  | _ part ih =>
      have hNested :
          ∀ inner fault, part.Encloses inner →
            readPart E inner = .error fault → fault.ArisesIn inner :=
        fun inner fault hEncloses hFault => ih inner hEncloses hFault
      rw [readPart_eq] at h
      cases hGroup : group (readPart E) part with
      | ok s d => simp [hGroup] at h
      | error found d =>
          rw [hGroup] at h
          cases h
          exact faultsIn_group hNested _ _ hGroup

end Scan

end TreeQuery
