import TreeQuery.Pattern.Standard
import TreeQuery.Proofs.Reading.Report
import TreeQuery.Proofs.Reading.Window

/-
  Windows and offsets stay inside of the query.

  Whatever the query is, each window that is read with a cursor
  of its own is a slice of it, cut between characters, and lies
  strictly inside of the window that it was found in.  Readers
  move on with every part, compound and branch, so that they
  come to an end.  A fault is found at a place of the window
  that is read.

  Key definitions include:
    * `Cursor.MovesTo`
    * `Selector.IsWindow`

  Main statements:
    * `Selector.window?_of_isWindow`
    * `Scan.movesTo_of_loop`
    * `Selector.windows_lie_inside`
-/

namespace TreeQuery

variable {E : Engine}

------------------------------------------------------------
-- Slices
------------------------------------------------------------

/- A text with something before and behind it is a window. -/
theorem Text.window?_append
    (before window after : List Char) :
    window? (byteLength before) (byteLength window)
        (before ++ (window ++ after)) =
      some window := by
  have hStart :
      cutAtByte? (byteLength before) (before ++ (window ++ after)) =
        some (before, window ++ after) :=
    cutAtByte?_eq_some_iff.2 ⟨rfl, rfl⟩
  have hEnd :
      cutAtByte? (byteLength window) (window ++ after) =
        some (window, after) :=
    cutAtByte?_eq_some_iff.2 ⟨rfl, rfl⟩
  simp [window?, hStart, hEnd]

namespace Selector

/-
  The windows of a query: the whole of it, and in each of them
  what stands between square brackets and what an argument is,
  wherever a reader finds one.
-/
inductive IsWindow (query : String) : Cursor → Prop where
| whole :
    IsWindow query (.before 0 query.toList)
| bracketed {part c d inner : Cursor}
    (hPart : IsWindow query part)
    (hReach : part.Reaches c)
    (hRead :
      Scan.balanced '[' ']' .unterminatedAttribute c = .ok inner d) :
    IsWindow query inner
| argument {part inner : Cursor}
    (hPart : IsWindow query part)
    (hOpens : Scan.Opens part inner) :
    IsWindow query inner

/- Every window but the whole is enclosed by it. -/
theorem encloses_of_isWindow
    {query : String}
    {part : Cursor}
    (h : IsWindow query part) :
    part = .before 0 query.toList ∨
      (Cursor.before 0 query.toList).Encloses part := by
  have hInside :
      ∀ {part inner : Cursor},
        part = .before 0 query.toList ∨
            (Cursor.before 0 query.toList).Encloses part →
          part.Encloses inner →
            (Cursor.before 0 query.toList).Encloses inner := by
    intro part inner hPart hInner
    rcases hPart with rfl | hPart
    · exact hInner
    · exact hPart.trans hInner
  induction h with
  | whole => exact .inl rfl
  | bracketed hPart hReach hRead ih =>
      have hEncloses := Scan.encloses_balanced (by decide) hRead
      exact .inr (hInside ih (hReach.encloses hEncloses))
  | argument hPart hOpens ih => exact .inr (hInside ih hOpens.encloses)

/- Every window is a slice of the query. -/
theorem window?_of_isWindow
    {query : String}
    {part : Cursor}
    (h : IsWindow query part) :
    Text.window? part.offset (Text.byteLength part.rest) query.toList =
      some part.rest := by
  rcases encloses_of_isWindow h with
    rfl | ⟨before, after, _, _, hRest, hOffset⟩
  · exact Text.window?_whole query.toList
  · have hQuery : query.toList = before ++ (part.rest ++ after) := hRest
    have hStart : part.offset = Text.byteLength before := by
      rw [hOffset, Cursor.before, Nat.zero_add]
    rw [hQuery, hStart]
    exact Text.window?_append before part.rest after

/- It ends before the query does. -/
theorem byteLength_of_isWindow
    {query : String}
    {part : Cursor}
    (h : IsWindow query part) :
    part.offset + Text.byteLength part.rest ≤
      Text.byteLength query.toList := by
  rcases encloses_of_isWindow h with
    rfl | ⟨before, after, _, _, hRest, hOffset⟩
  · simp [Cursor.before]
  · have hQuery : query.toList = before ++ (part.rest ++ after) := hRest
    have hZero : (Cursor.before 0 query.toList).offset = 0 := rfl
    rw [hQuery, hOffset, hZero, Text.byteLength_append,
      Text.byteLength_append]
    omega

end Selector

------------------------------------------------------------
-- Progress
------------------------------------------------------------

/- The second cursor stands behind the first one in the same text. -/
def Cursor.MovesTo (c d : Cursor) : Prop :=
  c.Reaches d ∧ c.offset < d.offset

namespace Scan

theorem movesTo_of_length_lt
    {α : Type}
    {act : Scan α}
    (hAct : Advances act)
    {c d : Cursor}
    {a : α}
    (h : act c = .ok a d)
    (hLess : d.rest.length < c.rest.length) :
    c.MovesTo d := by
  have hReach := hAct.reaches (.refl c) h
  exact ⟨hReach, hReach.offset_lt hLess⟩

/- Names, compounds and what a loop goes on with move the cursor. -/
theorem movesTo_of_loop
    (nested : Cursor → Except Fault (Selector E))
    (c d : Cursor) :
    (∀ s, compound nested c = .ok s d → c.MovesTo d) ∧
      (∀ before s,
        part? nested before c = .ok (some s) d → c.MovesTo d) ∧
      (∀ step, next? nested c = .ok (some step) d → c.MovesTo d) ∧
      (∀ s, branch nested c = .ok (s, true) d → c.MovesTo d) ∧
      (∀ name, identifier c = .ok name d → c.MovesTo d) := by
  refine ⟨?_, ?_, ?_, ?_, ?_⟩
  · intro s h
    exact movesTo_of_length_lt (advances_compound nested) h
      (consumes_compound nested c d s h)
  · intro before s h
    exact movesTo_of_length_lt (advances_part? nested before) h
      (length_lt_of_part? h)
  · intro step h
    exact movesTo_of_length_lt (advances_next? nested) h
      (length_lt_of_next? h)
  · intro s h
    exact movesTo_of_length_lt (advances_branch nested) h
      (length_lt_of_branch h)
  · intro name h
    exact movesTo_of_length_lt advances_identifier h
      (consumes_identifier c d name h)

end Scan

------------------------------------------------------------
-- Whole Queries
------------------------------------------------------------

namespace Selector

/- The fault of a query is found between two of its characters. -/
theorem offset_of_read_error
    {query : String}
    {e : ParseError}
    (h : read E query = .error e) :
    e.query = query ∧
      ∃ before after, query.toList = before ++ after ∧
        e.fault.offset = Text.byteLength before := by
  unfold read at h
  cases hPart : Scan.readPart E (.before 0 query.toList) with
  | ok s => simp [hPart] at h
  | error fault =>
      rw [hPart] at h
      cases h
      rcases (Scan.arisesIn_of_readPart hPart).inside with
        ⟨before, after, hSplit, hOffset⟩
      refine ⟨rfl, before, after, hSplit, ?_⟩
      rw [hOffset, Cursor.before, Nat.zero_add]

/-
  Reading stays inside of the query and ends.  Every window is
  a slice of the query between two characters.  Wherever a
  reader stands in a window, the windows that it finds there
  lie strictly inside of it, and nested selectors are asked for
  nowhere else; so the recursion is well-founded and needs no
  bound.  Parts, compounds and all that a loop goes on with
  move the cursor.  Faults name the query, and are found at a
  place of the window that is read.
-/
theorem windows_lie_inside (E : Engine) :
    (∀ (query : String) (part : Cursor), IsWindow query part →
      Text.window? part.offset (Text.byteLength part.rest) query.toList =
          some part.rest ∧
        part.offset + Text.byteLength part.rest ≤
          Text.byteLength query.toList) ∧
      (∀ part c d inner : Cursor, part.Reaches c →
        Scan.balanced '[' ']' .unterminatedAttribute c = .ok inner d →
          part.Encloses inner ∧
            ∀ fault e, Scan.bracketed E inner = .error fault e →
              inner.Holds fault.offset) ∧
      (∀ part inner : Cursor, Scan.Opens part inner →
        part.Encloses inner ∧
          ∀ resolve fault e, inner.peek?.any isQuote = true →
            Scan.quotedArgument resolve inner = .error fault e →
              inner.Holds fault.offset) ∧
      (∀ (part : Cursor)
          (nested nested' : Cursor → Except Fault (Selector E)),
        (∀ inner, Scan.Opens part inner → nested inner = nested' inner) →
          Scan.group nested part = Scan.group nested' part) ∧
      (WellFounded fun inner outer : Cursor => outer.Encloses inner) ∧
      (∀ part, Scan.readPart E part =
        match Scan.group (Scan.readPart E) part with
        | .ok s _ => .ok s
        | .error fault _ => .error fault) ∧
      (∀ (nested : Cursor → Except Fault (Selector E)) (c d : Cursor),
        (∀ s, Scan.compound nested c = .ok s d → c.MovesTo d) ∧
          (∀ before s,
            Scan.part? nested before c = .ok (some s) d → c.MovesTo d) ∧
          (∀ step,
            Scan.next? nested c = .ok (some step) d → c.MovesTo d) ∧
          (∀ s, Scan.branch nested c = .ok (s, true) d → c.MovesTo d) ∧
          (∀ name, Scan.identifier c = .ok name d → c.MovesTo d)) ∧
      (∀ part fault, Scan.readPart E part = .error fault →
        part.Holds fault.offset) ∧
      (∀ query e, read E query = .error e →
        e.query = query ∧
          ∃ before after, query.toList = before ++ after ∧
            e.fault.offset = Text.byteLength before) := by
  have hClosing : ']' ∉ ['\\', '"', '\'', '['] := by decide
  refine ⟨?_, ?_, ?_, ?_, Cursor.wellFounded_encloses, Scan.readPart_eq,
    Scan.movesTo_of_loop, ?_, ?_⟩
  · intro query part hPart
    exact ⟨window?_of_isWindow hPart, byteLength_of_isWindow hPart⟩
  · intro part c d inner hReach hRead
    have hSpans := ((Scan.balanced_eq_ok_iff hClosing).1 hRead).1
    refine ⟨hReach.encloses (Scan.encloses_balanced hClosing hRead), ?_⟩
    intro fault e hFault
    exact (Scan.faultsIn_bracketed hSpans fault e hFault).inside
  · intro part inner hOpens
    refine ⟨hOpens.encloses, ?_⟩
    intro resolve fault e hQuote hFault
    rcases hOpens with ⟨name, c, d, _, hRead⟩
    have hFaults := Scan.faultsIn_quotedArgument hRead hQuote resolve
    exact (hFaults fault e hFault).inside
  · intro part nested nested' hNested
    exact Scan.group_congr hNested
  · intro part fault hFault
    exact (Scan.arisesIn_of_readPart hFault).inside
  · intro query e hRead
    exact offset_of_read_error hRead

/-
  The attribute test of `é[b?]` is the slice of two bytes behind
  the first three, and its fault is found at the second one.
-/
theorem windows_lie_inside_attribute :
    (Text.window? 3 2 "é[b?]".toList = some "b?".toList ∧
        3 + 2 ≤ Text.byteLength "é[b?]".toList) ∧
      (Cursor.before 0 "é[b?]".toList).Encloses ⟨3, "b?".toList⟩ ∧
      (⟨3, "b?".toList⟩ : Cursor).Holds 4 ∧
      (Cursor.before 0 ":is(é)".toList).Encloses ⟨4, ['é']⟩ ∧
      (⟨1, "'x' y".toList⟩ : Cursor).Holds 4 ∧
      Scan.group (Scan.readPart .standard) (.before 0 ":is(é)".toList) =
        Scan.group
          (fun inner =>
            if inner.rest.length < 6 then Scan.readPart .standard inner
            else .error ⟨.emptySelector, 0⟩)
          (.before 0 ":is(é)".toList) ∧
      (⟨0, "é,".toList⟩ : Cursor).MovesTo ⟨2, [',']⟩ ∧
      (Cursor.before 0 "é[b?]".toList).Holds 4 ∧
      ∃ before after, "é[b?]".toList = before ++ after ∧
        4 = Text.byteLength before := by
  rcases windows_lie_inside .standard with
    ⟨hSlice, hBracketed, hArgument, hNested, _, _, hLoop, hFault, hError⟩
  have hReach :
      (Cursor.before 0 "é[b?]".toList).Reaches ⟨2, "[b?]".toList⟩ :=
    ⟨['é'], by decide, by decide⟩
  have hRead :
      Scan.balanced '[' ']' .unterminatedAttribute ⟨2, "[b?]".toList⟩ =
        .ok ⟨3, "b?".toList⟩ ⟨6, []⟩ := by
    with_unfolding_all rfl
  have hWindow : IsWindow "é[b?]" ⟨3, "b?".toList⟩ :=
    .bracketed .whole hReach hRead
  have hInner :
      Scan.bracketed .standard ⟨3, "b?".toList⟩ =
        .error ⟨.expectedOperator "b", 4⟩ ⟨4, ['?']⟩ := by
    with_unfolding_all rfl
  have hOpens :
      Scan.Opens (.before 0 ":is(é)".toList) ⟨4, ['é']⟩ := by
    refine ⟨"is", ⟨3, "(é)".toList⟩, ⟨7, []⟩, ?_, ?_⟩
    · exact ⟨":is".toList, by decide, by decide⟩
    · with_unfolding_all rfl
  have hQuoted : Scan.Opens ⟨0, "('x' y)".toList⟩ ⟨1, "'x' y".toList⟩ := by
    refine ⟨"contains", ⟨0, "('x' y)".toList⟩, ⟨7, []⟩, .refl _, ?_⟩
    with_unfolding_all rfl
  have hUnended :
      Scan.quotedArgument false ⟨1, "'x' y".toList⟩ =
        .error ⟨.unexpectedAfter ' ' .quotedArgument, 4⟩
          ⟨4, " y".toList⟩ := by
    with_unfolding_all rfl
  have hCompound :
      Scan.compound (Scan.readPart .standard) ⟨0, "é,".toList⟩ =
        .ok (.tag (.name "é")) ⟨2, [',']⟩ := by
    with_unfolding_all rfl
  have hPart :
      Scan.readPart .standard (.before 0 "é[b?]".toList) =
        .error ⟨.expectedOperator "b", 4⟩ := by
    with_unfolding_all rfl
  have hWhole :
      read .standard "é[b?]" =
        .error ⟨⟨.expectedOperator "b", 4⟩, "é[b?]"⟩ := by
    with_unfolding_all rfl
  have hLength : (Cursor.before 0 ":is(é)".toList).rest.length = 6 := by
    decide
  refine ⟨hSlice _ _ hWindow, (hBracketed _ _ _ _ hReach hRead).1,
    (hBracketed _ _ _ _ hReach hRead).2 _ _ hInner,
    (hArgument _ _ hOpens).1,
    (hArgument _ _ hQuoted).2 false _ _ rfl hUnended, ?_,
    (hLoop _ _ _).1 _ hCompound, hFault _ _ hPart,
    (hError _ _ hWhole).2⟩
  refine hNested _ _ _ fun inner hInner => ?_
  have hLess := hInner.encloses.length_lt
  rw [hLength] at hLess
  rw [if_pos hLess]

end Selector

end TreeQuery
