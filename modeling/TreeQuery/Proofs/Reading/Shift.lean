import TreeQuery.Proofs.Reading.Enclose

/-
  Offsets count from the start of the whole query.

  Readers look at the text that is left and never at the
  offset of their cursor.  With `k` more bytes before the text
  they give the same values and the same causes of faults, and
  every offset that they report is `k` bytes more.

  Key definitions include:
    * `Cursor.shift`
    * `Fault.shift`
    * `Scan.Shifts`
    * `Scan.NestedShifts`

  Main statements:
    * `Scan.Shifts.bind`
    * `Scan.shifts_part?`
    * `Scan.shifts_branchesFrom`
    * `Scan.group_congr`
    * `Scan.readPart_eq`
    * `Scan.readPart_shift`
-/

namespace TreeQuery

variable {E : Engine}

------------------------------------------------------------
-- Cursors
------------------------------------------------------------

/- The cursor, with `k` more bytes before it. -/
def Cursor.shift (k : Nat) (c : Cursor) : Cursor :=
  ⟨c.offset + k, c.rest⟩

/- The fault, found behind `k` more bytes. -/
def Fault.shift (k : Nat) (fault : Fault) : Fault :=
  ⟨fault.cause, fault.offset + k⟩

namespace Cursor

variable {k : Nat}

@[simp]
theorem shift_rest (c : Cursor) :
    (c.shift k).rest = c.rest :=
  rfl

@[simp]
theorem shift_offset (c : Cursor) :
    (c.shift k).offset = c.offset + k :=
  rfl

theorem moveTo_shift (c : Cursor) (rest : List Char) :
    (c.shift k).moveTo rest = (c.moveTo rest).shift k := by
  simp only [moveTo, shift, mk.injEq, and_true]
  omega

theorem toEnd_shift (c : Cursor) :
    (c.shift k).toEnd = c.toEnd.shift k :=
  c.moveTo_shift []

theorem skipBlanks_shift (c : Cursor) :
    (c.shift k).skipBlanks = c.skipBlanks.shift k :=
  c.moveTo_shift _

theorem advance_shift (c : Cursor) :
    (c.shift k).advance = c.advance.shift k := by
  rcases c with ⟨o, rest⟩
  cases rest with
  | nil => rfl
  | cons x xs =>
      simp only [advance, shift, mk.injEq, and_true]
      omega

theorem chomp?_shift (c : Cursor) (text : List Char) :
    (c.shift k).chomp? text = (c.chomp? text).map (shift k) := by
  unfold chomp?
  rw [shift_rest]
  cases Text.cutAtByte? (Text.byteLength text) c.rest with
  | none => rfl
  | some cut =>
      rcases cut with ⟨head, tail⟩
      by_cases hEqual : Text.equalIgnoringCase head text = true
      · simp only [hEqual, ↓reduceIte, Option.map_some, shift,
          Option.some.injEq, mk.injEq, and_true]
        omega
      · simp [hEqual]

/- Where something is left, the end of the text has an offset above 0. -/
theorem toEnd_offset_pos
    {c : Cursor}
    (h : c.rest ≠ []) :
    0 < c.toEnd.offset := by
  have hBytes : Text.byteLength c.rest ≠ 0 :=
    fun hZero => h (Text.byteLength_eq_zero_iff.1 hZero)
  simp only [toEnd, moveTo, Text.byteLength_nil]
  omega

end Cursor

namespace Scan

variable {α β γ δ : Type}

------------------------------------------------------------
-- Results
------------------------------------------------------------

/- The result with all its offsets `k` bytes on, and its value changed. -/
def shiftResult (k : Nat) (f : α → β) :
    EStateM.Result Fault Cursor α → EStateM.Result Fault Cursor β
| .ok a c => .ok (f a) (c.shift k)
| .error fault c => .error (fault.shift k) (c.shift k)

/-
  With `k` more bytes before the cursor, the second reader
  does there what the first one does.  `f` tells how the value
  changes, which may hold offsets too.
-/
def Shifts
    (k : Nat)
    (f : α → β)
    (act : Scan α)
    (act' : Scan β)
    (c : Cursor) : Prop :=
  act' (c.shift k) = shiftResult k f (act c)

variable {k : Nat} {c : Cursor}

theorem Shifts.pure (f : α → β) (a : α) (c : Cursor) :
    Shifts k f (pure a) (pure (f a)) c :=
  rfl

/- A reader that shifts gives its values wherever it starts. -/
theorem Shifts.value?_eq
    {act act' : Scan α}
    (hAct : Shifts k id act act' c) :
    value? act' (c.shift k) =
      (value? act c).map fun (a, d) => (a, d.shift k) := by
  unfold Shifts at hAct
  rw [value?, value?, hAct]
  cases act c with
  | error fault d => rfl
  | ok a d => rfl

/- So it gives them wherever the same text stands. -/
theorem Shifts.value?_of_rest
    {act : Scan α}
    {rest : List Char}
    (hAct : ∀ k, Shifts k id act act ⟨0, rest⟩)
    {c c' d : Cursor}
    {a : α}
    (hRest : c.rest = rest)
    (hRest' : c'.rest = rest)
    (h : value? act c = some (a, d)) :
    ∃ d', d'.rest = d.rest ∧ value? act c' = some (a, d') := by
  have hMoved :
      ∀ e : Cursor, e.rest = rest →
        value? act e =
          (value? act ⟨0, rest⟩).map (Prod.map id (Cursor.shift e.offset)) := by
    rintro ⟨o, _⟩ rfl
    have hValue := (hAct o).value?_eq
    rwa [Cursor.shift, Nat.zero_add] at hValue
  rw [hMoved c hRest, Option.map_eq_some_iff] at h
  rcases h with ⟨⟨b, e⟩, hRead, hPair⟩
  cases hPair
  refine ⟨e.shift c'.offset, rfl, ?_⟩
  rw [hMoved c' hRest', hRead]
  rfl

/- The second of two readers starts where the first one stops. -/
theorem Shifts.bind
    {f : α → β}
    {g : γ → δ}
    {act : Scan α}
    {act' : Scan β}
    {next : α → Scan γ}
    {next' : β → Scan δ}
    (hAct : Shifts k f act act' c)
    (hNext : ∀ a d, act c = .ok a d → Shifts k g (next a) (next' (f a)) d) :
    Shifts k g (act >>= next) (act' >>= next') c := by
  unfold Shifts at hAct hNext ⊢
  simp only [Bind.bind, EStateM.bind]
  rw [hAct]
  cases h : act c with
  | error fault d => rfl
  | ok a d => exact hNext a d h

theorem Shifts.map
    (g : α → β)
    {act act' : Scan α}
    (hAct : Shifts k id act act' c) :
    Shifts k id (g <$> act) (g <$> act') c := by
  unfold Shifts at hAct ⊢
  simp only [Functor.map, EStateM.map]
  rw [hAct]
  cases act c with
  | error fault d => rfl
  | ok a d => rfl

theorem Shifts.ite
    {p : Prop}
    [Decidable p]
    {f : α → β}
    {act other : Scan α}
    {act' other' : Scan β}
    (hAct : Shifts k f act act' c)
    (hOther : Shifts k f other other' c) :
    Shifts k f (if p then act else other)
      (if p then act' else other') c := by
  split
  · exact hAct
  · exact hOther

------------------------------------------------------------
-- Basic Readers
------------------------------------------------------------

theorem shifts_fail (f : α → β) (cause : Cause) (c : Cursor) :
    Shifts k f (fail cause) (fail cause) c :=
  rfl

theorem shifts_failAt
    (f : α → β)
    (o : Nat)
    (cause : Cause)
    (c : Cursor) :
    Shifts k f (failAt o cause) (failAt (o + k) cause) c :=
  rfl

theorem shifts_peek? (c : Cursor) :
    Shifts k id peek? peek? c :=
  rfl

theorem shifts_offset (c : Cursor) :
    Shifts k (· + k) offset offset c :=
  rfl

theorem shifts_isAtEnd (c : Cursor) :
    Shifts k id isAtEnd isAtEnd c :=
  rfl

theorem shifts_advance (c : Cursor) :
    Shifts k id advance advance c := by
  simp only [Shifts, advance, shiftResult, c.advance_shift]

theorem shifts_skipBlanks (c : Cursor) :
    Shifts k id skipBlanks skipBlanks c := by
  simp only [Shifts, skipBlanks, shiftResult, c.skipBlanks_shift]
  rfl

theorem shifts_chomp (text : String) (c : Cursor) :
    Shifts k id (chomp text) (chomp text) c := by
  simp only [Shifts, chomp, c.chomp?_shift]
  cases c.chomp? text.toList with
  | none => rfl
  | some d => rfl

theorem shifts_remainder (c : Cursor) :
    Shifts k id remainder remainder c := by
  simp only [Shifts, remainder, shiftResult, c.toEnd_shift]
  rfl

theorem shifts_expectEnd (place : EndOf) (c : Cursor) :
    Shifts k id (expectEnd place) (expectEnd place) c := by
  rcases c with ⟨o, rest⟩
  cases rest with
  | nil => rfl
  | cons x xs => rfl

/- A part of the text keeps its own offsets in the whole query. -/
theorem shifts_within
    {act act' : Scan α}
    {part : Cursor}
    (hAct : Shifts k id act act' part)
    (c : Cursor) :
    Shifts k id (within part act) (within (part.shift k) act') c := by
  unfold Shifts at hAct ⊢
  simp only [within]
  rw [hAct]
  cases act part with
  | error fault d => rfl
  | ok a d => rfl

theorem shifts_ofExcept
    (result : Except Fault α)
    (c : Cursor) :
    Shifts k id (ofExcept result)
      (ofExcept (result.mapError (Fault.shift k))) c := by
  cases result with
  | error fault => rfl
  | ok a => rfl

------------------------------------------------------------
-- Tokens
------------------------------------------------------------

theorem shifts_identifier (c : Cursor) :
    Shifts k id identifier identifier c := by
  unfold Shifts identifier
  rw [Cursor.shift_rest]
  cases hRead : readIdentifier? c.rest with
  | none =>
      have hSome : c.rest ≠ [] := by
        intro hNil
        simp [hNil, readIdentifier?] at hRead
      have hPos := Cursor.toEnd_offset_pos hSome
      have hOffset :
          c.toEnd.offset + k - 1 = c.toEnd.offset - 1 + k := by
        omega
      simp only [c.toEnd_shift, Cursor.shift_offset, hOffset]
      rfl
  | some read =>
      rcases read with ⟨name, rest⟩
      cases name with
      | nil => rfl
      | cons x xs =>
          simp only [c.moveTo_shift]
          rfl

theorem shifts_quoted (resolve : Bool) (c : Cursor) :
    Shifts k id (quoted resolve) (quoted resolve) c := by
  rcases c with ⟨o, rest⟩
  cases rest with
  | nil => rfl
  | cons q cs =>
      have hPos :=
        Cursor.toEnd_offset_pos (c := ⟨o, q :: cs⟩) (by simp)
      generalize hStart : (⟨o, q :: cs⟩ : Cursor) = c at hPos
      have hRest : c.rest = q :: cs := by rw [← hStart]
      have hOffset :
          c.toEnd.offset + k - 1 = c.toEnd.offset - 1 + k := by
        omega
      unfold Shifts quoted
      simp only [Cursor.shift_rest, hRest]
      by_cases hQuote : isQuote q = true
      · simp only [hQuote, ↓reduceIte]
        generalize
          (if resolve then readQuoted q cs else readQuotedRaw q cs) = read
        cases read with
        | closed content rest =>
            simp only [c.moveTo_shift]
            rfl
        | endsInside =>
            simp only [c.toEnd_shift]
            rfl
        | endsInEscape =>
            simp only [c.toEnd_shift, Cursor.shift_offset, hOffset]
            rfl
      · simp only [hQuote, Bool.false_eq_true, ↓reduceIte,
          c.advance_shift]
        rfl

/- The text between brackets is read with a cursor that is shifted. -/
theorem shifts_balanced
    (opening closing : Char)
    (code : Code)
    (c : Cursor) :
    Shifts k (Cursor.shift k) (balanced opening closing code)
      (balanced opening closing code) c := by
  unfold Shifts balanced
  rw [Cursor.shift_rest]
  cases hRest : c.rest with
  | nil => rfl
  | cons b cs =>
      by_cases hOpening : b = opening
      · simp only [hOpening, ↓reduceIte]
        cases readBalanced? opening closing 0 none cs with
        | none =>
            simp only [c.toEnd_shift]
            rfl
        | some read =>
            rcases read with ⟨content, rest⟩
            simp only [c.moveTo_shift, shiftResult,
              EStateM.Result.ok.injEq, and_true]
            simp only [Cursor.shift, Cursor.mk.injEq, and_true]
            omega
      · simp only [hOpening, ↓reduceIte]
        rfl

------------------------------------------------------------
-- Attribute Tests
------------------------------------------------------------

theorem shifts_operator?
    (ops : List AttributeOperator)
    (c : Cursor) :
    Shifts k id (operator? ops) (operator? ops) c := by
  induction ops generalizing c with
  | nil => rfl
  | cons op ops ih =>
      refine (shifts_chomp op.sign c).bind fun found d _ => ?_
      exact .ite (.pure id (some op) d) (ih d)

theorem shifts_nameParts (name : String) (c : Cursor) :
    Shifts k id (nameParts name) (nameParts name) c := by
  unfold Shifts
  fun_induction nameParts name c with
  | case1 name c x hPeek hPeek' hChar part e hRead _ _ ih =>
      have hRead' : identifier (c.shift k).advance =
          .ok part (e.shift k) := by
        rw [c.advance_shift, shifts_identifier, hRead]
        rfl
      rw [nameParts]
      simp only [Cursor.peek?, Cursor.peekNth?, Cursor.shift_rest]
        at hPeek hPeek' ⊢
      simp only [hPeek, hPeek', hChar, ↓reduceIte]
      split
      · next part' e' h =>
          cases hRead'.symm.trans h
          exact ih
      · next fault e' h => cases hRead'.symm.trans h
  | case2 name c x hPeek hPeek' hChar fault e hRead =>
      have hRead' : identifier (c.shift k).advance =
          .error (fault.shift k) (e.shift k) := by
        rw [c.advance_shift, shifts_identifier, hRead]
        rfl
      rw [nameParts]
      simp only [Cursor.peek?, Cursor.peekNth?, Cursor.shift_rest]
        at hPeek hPeek' ⊢
      simp only [hPeek, hPeek', hChar, ↓reduceIte]
      split
      · next part' e' h => cases hRead'.symm.trans h
      · next fault' e' h =>
          cases hRead'.symm.trans h
          rfl
  | case3 name c x hPeek hPeek' hChar =>
      rw [nameParts]
      simp only [Cursor.peek?, Cursor.peekNth?, Cursor.shift_rest]
        at hPeek hPeek' ⊢
      simp only [hPeek, hPeek', hChar, Bool.false_eq_true, ↓reduceIte]
      rfl
  | case4 name c hOther =>
      rw [nameParts]
      split
      · next x hPeek hPeek' => exact absurd hPeek' (hOther x hPeek)
      · rfl

theorem shifts_attributeName (c : Cursor) :
    Shifts k id attributeName attributeName c :=
  (shifts_identifier c).bind fun name d _ => shifts_nameParts name d

theorem shifts_attributeValue (op : AttributeOperator) (c : Cursor) :
    Shifts k id (attributeValue op) (attributeValue op) c := by
  refine (shifts_peek? c).bind fun next d _ => .ite ?_ ?_
  · refine (shifts_quoted _ d).bind fun value e _ => ?_
    refine (shifts_skipBlanks e).bind fun _ f _ => ?_
    exact (shifts_expectEnd _ f).bind fun _ g _ => .pure id value g
  · exact (shifts_remainder d).bind fun raw e _ => .pure id _ e

theorem shifts_pattern
    (o : Nat)
    (ignoreCase : Bool)
    (source : String)
    (c : Cursor) :
    Shifts k id (pattern E o ignoreCase source)
      (pattern E (o + k) ignoreCase source) c := by
  unfold pattern
  cases Pattern.read? E ignoreCase source with
  | none => rfl
  | some p => rfl

theorem shifts_valueTest
    (op : AttributeOperator)
    (o : Nat)
    (value : String)
    (c : Cursor) :
    Shifts k id (valueTest E op o value) (valueTest E op (o + k) value)
      c := by
  cases op with
  | compare comparison => exact .pure id _ c
  | matchesPattern => exact (shifts_pattern o false value c).map _

/- The offset of a value is taken where the value starts. -/
theorem shifts_operatorAndValue (name : String) (c : Cursor) :
    Shifts k id (operatorAndValue E name) (operatorAndValue E name) c := by
  refine (shifts_operator? _ c).bind fun op? d _ => ?_
  cases op? with
  | none => exact shifts_fail id _ d
  | some op =>
      refine (shifts_skipBlanks d).bind fun _ e _ => ?_
      refine (shifts_offset e).bind fun start f _ => ?_
      refine (shifts_attributeValue op f).bind fun value g _ => ?_
      exact .ite (shifts_failAt id start _ g) (shifts_valueTest op start value g)

theorem shifts_bracketed (c : Cursor) :
    Shifts k id (bracketed E) (bracketed E) c := by
  refine (shifts_skipBlanks c).bind fun _ d _ => ?_
  refine (shifts_chomp "^" d).bind fun caret e _ => .ite ?_ ?_
  · refine (shifts_identifier e).bind fun start f _ => ?_
    refine (shifts_skipBlanks f).bind fun _ g _ => ?_
    exact (shifts_expectEnd _ g).bind fun _ h _ => .pure id _ h
  · refine (shifts_attributeName e).bind fun name f _ => ?_
    refine (shifts_skipBlanks f).bind fun _ g _ => ?_
    refine (shifts_isAtEnd g).bind fun ended h _ => .ite ?_ ?_
    · exact .pure id _ h
    · exact (shifts_operatorAndValue name h).bind fun _ i _ => .pure id _ i

theorem shifts_attributeTest (c : Cursor) :
    Shifts k id (attributeTest E) (attributeTest E) c :=
  (shifts_balanced '[' ']' .unterminatedAttribute c).bind fun part d _ =>
    shifts_within (shifts_bracketed part) d

------------------------------------------------------------
-- Arguments
------------------------------------------------------------

theorem shifts_argument (name : String) (c : Cursor) :
    Shifts k (Cursor.shift k) (argument name) (argument name) c := by
  refine Shifts.bind (f := Cursor.shift k) ?_ fun part d _ => ?_
  · refine (shifts_peek? c).bind fun next d _ => .ite ?_ ?_
    · exact shifts_balanced _ _ _ d
    · exact (shifts_isAtEnd d).bind fun _ e _ => shifts_fail _ _ e
  · refine .ite (shifts_failAt _ part.offset _ d) ?_
    rw [part.skipBlanks_shift]
    exact .pure (Cursor.shift k) _ d

theorem shifts_indexArgument (name : String) (c : Cursor) :
    Shifts k id (indexArgument name) (indexArgument name) c := by
  refine (shifts_argument name c).bind fun part d _ => ?_
  rw [Cursor.shift_rest]
  cases readIndex? part.rest with
  | none => exact shifts_failAt id part.offset _ d
  | some n => exact .pure id n d

theorem shifts_formulaArgument (name : String) (c : Cursor) :
    Shifts k id (formulaArgument name) (formulaArgument name) c := by
  refine (shifts_argument name c).bind fun part d _ => ?_
  have hText : argumentText (part.shift k) = argumentText part := rfl
  rw [hText]
  cases Formula.parse? (argumentText part) with
  | none => exact shifts_failAt id part.offset _ d
  | some formula => exact .pure id formula d

/- A text argument gives its own offset with the text. -/
theorem shifts_textArgument
    (name : String)
    (resolve : Bool)
    (c : Cursor) :
    Shifts k (Prod.map (· + k) id) (textArgument name resolve)
      (textArgument name resolve) c := by
  refine (shifts_argument name c).bind fun part d _ => .ite ?_ ?_
  · have hQuoted :
        Shifts k id (quotedArgument resolve) (quotedArgument resolve)
          part := by
      refine (shifts_quoted resolve part).bind fun text e _ => ?_
      exact (shifts_expectEnd _ e).bind fun _ f _ => .pure id text f
    refine (shifts_within hQuoted d).bind fun text e _ => .ite ?_ ?_
    · exact shifts_failAt _ part.offset _ e
    · exact .pure (Prod.map (· + k) id) (part.offset, text) e
  · refine .ite ?_ ?_
    · exact .pure (Prod.map (· + k) id) (part.offset, _) d
    · exact .pure (Prod.map (· + k) id) (part.offset, _) d

------------------------------------------------------------
-- Parts
------------------------------------------------------------

/-
  On the arguments in `part` the second reader of selectors
  does behind `k` more bytes what the first one does.
-/
def NestedShifts
    (k : Nat)
    (part : Cursor)
    (nested nested' : Cursor → Except Fault (Selector E)) : Prop :=
  ∀ inner : Cursor, Opens part inner →
    nested' (inner.shift k) = (nested inner).mapError (Fault.shift k)

section Nested

variable {part : Cursor} {nested nested' : Cursor → Except Fault (Selector E)}

variable (hNested : NestedShifts k part nested nested')

include hNested

theorem shifts_meaning
    (before : List (Selector E))
    (name : String)
    (known : PseudoClass E)
    (hReach : part.Reaches c) :
    Shifts k id (meaning nested before name known)
      (meaning nested' before name known) c := by
  cases known with
  | plain s => exact .pure id s c
  | index test =>
      exact (shifts_indexArgument name c).bind fun _ d _ => .pure id _ d
  | position kind =>
      exact (shifts_formulaArgument name c).bind fun _ d _ => .pure id _ d
  | nested nesting =>
      refine (shifts_argument name c).bind fun inner d hInner => ?_
      rw [hNested inner ⟨name, c, d, hReach, hInner⟩]
      exact (shifts_ofExcept _ d).bind fun _ e _ => .pure id _ e
  | contains source =>
      refine (shifts_textArgument name true c).bind fun read d _ => ?_
      exact .pure id (Selector.containsText source (needle source read.2)) d
  | matchesText source =>
      refine (shifts_textArgument name false c).bind fun read d _ => ?_
      have hPattern :=
        shifts_pattern (E := E) (k := k) read.1 source.isNormalized read.2 d
      exact hPattern.bind fun p e _ =>
        .pure id (Selector.matchesText source p) e

omit hNested in
theorem shifts_pseudoClassName (start : Nat) (c : Cursor) :
    Shifts k id (pseudoClassName start) (pseudoClassName (start + k)) c := by
  refine (shifts_peek? c).bind fun next d _ => .ite ?_ ?_
  · exact shifts_failAt id start _ d
  · exact (shifts_identifier d).map _

theorem shifts_pseudoClass
    (before : List (Selector E))
    (hReach : part.Reaches c) :
    Shifts k id (pseudoClass nested before) (pseudoClass nested' before)
      c := by
  refine (shifts_offset c).bind fun start d hStart => ?_
  cases hStart
  refine (shifts_advance c).bind fun _ e hAdvance => ?_
  refine (shifts_pseudoClassName c.offset e).bind fun name f hName => ?_
  have hNext := advances_advance.reaches hReach hAdvance
  have hMore := (advances_pseudoClassName _).reaches hNext hName
  simp only [id_eq]
  cases pseudoClass? E name with
  | none => exact shifts_failAt id c.offset _ f
  | some known => exact shifts_meaning hNested before name known hMore

omit hNested in
theorem shifts_tagName (c : Cursor) :
    Shifts k id tagName tagName c :=
  (shifts_identifier c).map _

omit hNested in
theorem shifts_afterStar (c : Cursor) :
    Shifts k id (afterStar E) (afterStar E) c := by
  refine (shifts_chomp "|" c).bind fun bar d _ => .ite ?_ (.pure id _ d)
  refine (shifts_chomp "*" d).bind fun star e _ => .ite (.pure id _ e) ?_
  exact (shifts_tagName e).bind fun _ f _ => .pure id _ f

omit hNested in
theorem shifts_afterName (name : String) (c : Cursor) :
    Shifts k id (afterName E name) (afterName E name) c := by
  refine (shifts_chomp "|" c).bind fun bar d _ => .ite ?_ (.pure id _ d)
  refine (shifts_chomp "*" d).bind fun star e _ => .ite (.pure id _ e) ?_
  exact (shifts_tagName e).bind fun _ f _ => .pure id _ f

omit hNested in
theorem shifts_markedName (make : String → Selector E) (c : Cursor) :
    Shifts k id (markedName make) (markedName make) c :=
  (shifts_advance c).bind fun _ d _ =>
    (shifts_identifier d).bind fun _ e _ => .pure id _ e

theorem shifts_partWith
    (before : List (Selector E))
    (start : PartStart)
    (hReach : part.Reaches c) :
    Shifts k id (partWith nested before start)
      (partWith nested' before start) c := by
  cases start with
  | star => exact (shifts_advance c).bind fun _ d _ => shifts_afterStar d
  | hash => exact shifts_markedName .id c
  | dot => exact shifts_markedName .className c
  | bracket => exact shifts_attributeTest c
  | colon => exact shifts_pseudoClass hNested before hReach
  | name => exact (shifts_tagName c).bind fun name d _ => shifts_afterName name d

theorem shifts_part?
    (before : List (Selector E))
    (hReach : part.Reaches c) :
    Shifts k id (part? nested before) (part? nested' before) c := by
  have hPeek : (c.shift k).peek? = c.peek? := rfl
  unfold Shifts part?
  rw [hPeek]
  cases c.peek?.bind (partStart? before.isEmpty) with
  | none => rfl
  | some start => exact (shifts_partWith hNested before start hReach).map some

------------------------------------------------------------
-- Chains and Groups
------------------------------------------------------------

theorem shifts_partsFrom
    (before : List (Selector E))
    (hReach : part.Reaches c) :
    Shifts k id (partsFrom nested before) (partsFrom nested' before) c := by
  fun_induction partsFrom nested before c with
  | case1 before c s d h _ ih =>
      have hPart := shifts_part? hNested before hReach
      have hRest := ih ((advances_part? nested before).reaches hReach h)
      unfold Shifts at hPart hRest ⊢
      rw [partsFrom_step, hPart, h, partsFrom_step before c, h]
      exact hRest
  | case2 before c d h =>
      have hPart := shifts_part? hNested before hReach
      unfold Shifts at hPart ⊢
      rw [partsFrom_step, hPart, h, partsFrom_step before c, h]
      rfl
  | case3 before c fault d h =>
      have hPart := shifts_part? hNested before hReach
      unfold Shifts at hPart ⊢
      rw [partsFrom_step, hPart, h, partsFrom_step before c, h]
      rfl

theorem shifts_compound (hReach : part.Reaches c) :
    Shifts k id (compound nested) (compound nested') c := by
  refine (shifts_partsFrom hNested [] hReach).bind fun parts d _ => .ite ?_ ?_
  · exact (shifts_peek? d).bind fun next e _ => shifts_fail id _ e
  · exact .pure id _ d

omit hNested in
theorem shifts_link (c : Cursor) :
    Shifts k id link link c := by
  refine (shifts_skipBlanks c).bind fun spaced d _ => ?_
  refine (shifts_peek? d).bind fun next e _ => ?_
  cases next with
  | none => exact .pure id _ e
  | some x =>
      refine .ite (.pure id _ e) ?_
      simp only [id_eq]
      cases combinator? x with
      | none => exact .ite (.pure id _ e) (shifts_fail id _ e)
      | some combinator =>
          refine (shifts_advance e).bind fun _ f _ => ?_
          refine (shifts_skipBlanks f).bind fun _ g _ => ?_
          refine (shifts_isAtEnd g).bind fun ended h _ => ?_
          exact .ite (shifts_fail id _ h) (.pure id _ h)

theorem shifts_next? (hReach : part.Reaches c) :
    Shifts k id (next? nested) (next? nested') c := by
  refine (shifts_link c).bind fun step d hLink => ?_
  cases step with
  | finished => exact .pure id none d
  | related combinator =>
      have hNext := advances_link.reaches hReach hLink
      exact (shifts_compound hNested hNext).bind fun _ e _ => .pure id _ e

theorem shifts_chainFrom
    (left : Selector E)
    (hReach : part.Reaches c) :
    Shifts k id (chainFrom nested left) (chainFrom nested' left) c := by
  fun_induction chainFrom nested left c with
  | case1 left c combinator right d h _ ih =>
      have hNext := shifts_next? hNested hReach
      have hRest := ih ((advances_next? nested).reaches hReach h)
      unfold Shifts at hNext hRest ⊢
      rw [chainFrom_step, hNext, h, chainFrom_step left c, h]
      exact hRest
  | case2 left c d h =>
      have hNext := shifts_next? hNested hReach
      unfold Shifts at hNext ⊢
      rw [chainFrom_step, hNext, h, chainFrom_step left c, h]
      rfl
  | case3 left c fault d h =>
      have hNext := shifts_next? hNested hReach
      unfold Shifts at hNext ⊢
      rw [chainFrom_step, hNext, h, chainFrom_step left c, h]
      rfl

theorem shifts_chain (hReach : part.Reaches c) :
    Shifts k id (chain nested) (chain nested') c := by
  refine (shifts_peek? c).bind fun next d hPeek => ?_
  cases hPeek
  refine .ite (shifts_chainFrom hNested .scope hReach) ?_
  refine (shifts_compound hNested hReach).bind fun s e hRead => ?_
  have hNext := (advances_compound nested).reaches hReach hRead
  exact shifts_chainFrom hNested s hNext

theorem shifts_branch (hReach : part.Reaches c) :
    Shifts k id (branch nested) (branch nested') c := by
  refine (shifts_skipBlanks c).bind fun _ d hBlanks => ?_
  refine (shifts_peek? d).bind fun next e hPeek => ?_
  cases hPeek
  have hNext := advances_skipBlanks.reaches hReach hBlanks
  refine .ite (shifts_fail id _ d) ?_
  refine (shifts_chain hNested hNext).bind fun s f _ => ?_
  exact (shifts_chomp "," f).bind fun comma g _ => .pure id (s, comma) g

theorem shifts_branchesFrom
    (before : List (Selector E))
    (hReach : part.Reaches c) :
    Shifts k id (branchesFrom nested before)
      (branchesFrom nested' before) c := by
  fun_induction branchesFrom nested before c with
  | case1 before c s d h _ ih =>
      have hBranch := shifts_branch hNested hReach
      have hRest := ih ((advances_branch nested).reaches hReach h)
      unfold Shifts at hBranch hRest ⊢
      rw [branchesFrom_step, hBranch, h, branchesFrom_step before c, h]
      exact hRest
  | case2 before c s d h =>
      have hBranch := shifts_branch hNested hReach
      unfold Shifts at hBranch ⊢
      rw [branchesFrom_step, hBranch, h, branchesFrom_step before c, h]
      rfl
  | case3 before c fault d h =>
      have hBranch := shifts_branch hNested hReach
      unfold Shifts at hBranch ⊢
      rw [branchesFrom_step, hBranch, h, branchesFrom_step before c, h]
      rfl

theorem shifts_group (hReach : part.Reaches c) :
    Shifts k id (group nested) (group nested') c :=
  (shifts_branchesFrom hNested [] hReach).bind fun _ d _ => .pure id _ d

end Nested

------------------------------------------------------------
-- Whole Selectors
------------------------------------------------------------

/-
  A group asks for nested selectors in its arguments alone:
  what they would be elsewhere makes no difference.
-/
theorem group_congr
    {part : Cursor}
    {nested nested' : Cursor → Except Fault (Selector E)}
    (h : ∀ inner, Opens part inner → nested inner = nested' inner) :
    group nested part = group nested' part := by
  have hNested : NestedShifts 0 part nested' nested := by
    intro inner hInner
    change nested inner = _
    rw [h inner hInner]
    cases nested' inner with
    | error fault => rfl
    | ok s => rfl
  have hGroup : group nested part = _ := shifts_group hNested (.refl part)
  rw [hGroup]
  cases group nested' part with
  | error fault d => rfl
  | ok s d => rfl

/-
  A part of a query is a group of selectors.  Its length sets
  no bound: what is nested in it is shorter in any case.
-/
theorem readPart_eq (part : Cursor) :
    readPart E part =
      match group (readPart E) part with
      | .ok s _ => .ok s
      | .error fault _ => .error fault := by
  have hGroup :
      group (fun inner =>
        if inner.rest.length < part.rest.length then readPart E inner
        else .error ⟨.emptySelector, inner.offset⟩) part =
          group (readPart E) part :=
    group_congr fun inner hInner => if_pos hInner.encloses.length_lt
  rewrite [readPart, hGroup]
  rfl

/- It gives a selector exactly where the group does. -/
theorem readPart_eq_ok_iff
    {part : Cursor}
    {s : Selector E} :
    readPart E part = .ok s ↔
      ∃ d, value? (group (readPart E)) part = some (s, d) := by
  rw [readPart_eq, value?]
  cases group (readPart E) part with
  | error fault d => simp
  | ok t d => simp

/-
  A part of a query is read as it would be anywhere else.  The
  induction is on its length.
-/
theorem readPart_shift (k : Nat) (part : Cursor) :
    readPart E (part.shift k) =
      (readPart E part).mapError (Fault.shift k) := by
  induction hLength : part.rest.length using Nat.strongRecOn
    generalizing part with
  | ind n ih =>
      have hNested : NestedShifts k part (readPart E) (readPart E) :=
        fun inner hInner =>
          ih _ (hLength ▸ hInner.encloses.length_lt) inner rfl
      have hGroup : group (readPart E) (part.shift k) = _ :=
        shifts_group hNested (.refl part)
      rw [readPart_eq, hGroup, readPart_eq part]
      cases group (readPart E) part with
      | error fault d => rfl
      | ok s d => rfl

end Scan

end TreeQuery
