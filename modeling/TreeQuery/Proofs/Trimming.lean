import TreeQuery.Pattern.Standard
import TreeQuery.Proofs.Reading.Composition
import TreeQuery.Proofs.Reading.Trailing
import TreeQuery.Query

/-
  Blanks around a query.

  Reading a query trims its text first, reading a selector
  does not.  Blanks before the text never matter.  Blanks
  behind it do where a name takes them: then the selector is
  another one.

  Main statements:
    * `Scan.readPart_skipBlanks`
    * `Scan.readPart_trim`
    * `Query.read_agrees`
-/

namespace TreeQuery

variable {E : Engine}

namespace Scan

------------------------------------------------------------
-- Blanks before a Text
------------------------------------------------------------

/- What a text is read as does not depend on where it stands. -/
theorem readPart_of_rest
    {c c' : Cursor}
    (hSame : c'.rest = c.rest)
    {s : Selector E} :
    readPart E c' = .ok s ↔ readPart E c = .ok s := by
  have hShift :
      ∀ c, readPart E c = .ok s ↔ readPart E ⟨0, c.rest⟩ = .ok s := by
    intro c
    have hMoved := readPart_shift (E := E) c.offset ⟨0, c.rest⟩
    rw [Cursor.shift, Nat.zero_add] at hMoved
    rw [hMoved]
    cases readPart E ⟨0, c.rest⟩ with
    | error fault => simp [Except.mapError]
    | ok t => simp [Except.mapError]
  rw [hShift c', hShift c, hSame]

/- Blanks before the text are skipped. -/
theorem readPart_skipBlanks
    (c : Cursor)
    {s : Selector E} :
    readPart E c.skipBlanks = .ok s ↔ readPart E c = .ok s := by
  have hSkip : c.skipBlanks.skipBlanks = c.skipBlanks := by
    simp [Cursor.skipBlanks, Cursor.dropWhile, Cursor.moveTo,
      List.dropWhile_idempotent]
  have hBranch :
      value? (branch (readPart E)) c.skipBlanks =
        value? (branch (readPart E)) c := by
    rw [value?_branch_eq, value?_branch_eq, hSkip]
  have hGroup :
      value? (group (readPart E)) c.skipBlanks =
        value? (group (readPart E)) c := by
    rw [value?_group, value?_group, value?_branchesFrom,
      value?_branchesFrom, hBranch]
  rw [readPart_eq_ok_iff, readPart_eq_ok_iff, hGroup]

/- So only the blanks at the end of a text may count. -/
theorem readPart_trim_append
    {text : List Char}
    {o o' : Nat}
    {s : Selector E} :
    readPart E ⟨o, Text.trim text ++ Text.endBlanks text⟩ = .ok s ↔
      readPart E ⟨o', text⟩ = .ok s := by
  rw [← readPart_skipBlanks, ← readPart_skipBlanks ⟨o', text⟩]
  exact readPart_of_rest (Text.trimStart_trim_append text)

/- They do not where none of them is taken into a name. -/
theorem readPart_trim
    {text : List Char}
    (hTaken :
      takesBlank false (Text.trim text) (Text.endBlanks text) = false)
    {o o' : Nat}
    {s : Selector E} :
    readPart E ⟨o, Text.trim text⟩ = .ok s ↔
      readPart E ⟨o', text⟩ = .ok s := by
  have hBlanks := Text.areBlanks_endBlanks text
  rw [← readPart_trailed hBlanks (Text.trimEnd_trim text) hTaken,
    readPart_trim_append]

/- If one is taken, the text is not read as it is without them. -/
theorem readPart_ne_trim
    {text : List Char}
    (hTaken :
      takesBlank false (Text.trim text) (Text.endBlanks text) = true)
    {o o' : Nat}
    {s : Selector E}
    (h : readPart E ⟨o, Text.trim text⟩ = .ok s) :
    readPart E ⟨o', text⟩ ≠ .ok s := by
  have hBlanks := Text.areBlanks_endBlanks text
  have hTrailed :=
    readPart_ne_trailed hBlanks (Text.trimEnd_trim text) hTaken h
  exact fun hWhole => hTrailed (readPart_trim_append.2 hWhole)

end Scan

------------------------------------------------------------
-- Trimmed Queries
------------------------------------------------------------

/- A query is read as its text is where nothing stands before it. -/
theorem Selector.read_eq_ok_iff_readPart
    {query : String}
    {s : Selector E} :
    read E query = .ok s ↔ Scan.readPart E ⟨0, query.toList⟩ = .ok s := by
  rw [read_eq_mapError, Cursor.before]
  cases Scan.readPart E ⟨0, query.toList⟩ with
  | error fault => simp [Except.mapError]
  | ok t => simp [Except.mapError]

theorem Selector.toOption_read_eq_some_iff
    {query : String}
    {s : Selector E} :
    (read E query).toOption = some s ↔
      Scan.readPart E ⟨0, query.toList⟩ = .ok s := by
  rw [← read_eq_ok_iff_readPart]
  cases read E query with
  | error e => simp [Except.toOption]
  | ok t => simp [Except.toOption]

namespace Query

/- A query is the selector that its trimmed text writes. -/
theorem toOption_read (text : String) :
    (read E text).toOption.map selector =
      (Selector.read E (String.ofList (Text.trim text.toList))).toOption := by
  unfold read
  by_cases hEmpty :
      (String.ofList (Text.trim text.toList)).isEmpty = true
  · have hNone : (Selector.read E "").toOption = none := by
      with_unfolding_all rfl
    rw [String.isEmpty_iff] at hEmpty
    simp only [hEmpty, hNone]
    rfl
  · simp only [hEmpty, Bool.false_eq_true, ↓reduceIte]
    cases Selector.read E (String.ofList (Text.trim text.toList)) with
    | ok s => rfl
    | error fault => rfl

/-
  The two ways to read a text give the same selector, or both
  give none, exactly if none of the blanks at its end is taken
  into a name, or neither way gives one.
-/
theorem toOption_read_eq_iff (E : Engine) (text : String) :
    (Selector.read E text).toOption = (read E text).toOption.map selector ↔
      takesBlank false (Text.trim text.toList) (Text.endBlanks text.toList)
          = false ∨
        (Selector.read E text).toOption = none ∧
          (read E text).toOption = none := by
  have hTrimmed :
      ∀ s, (read E text).toOption.map selector = some s ↔
        Scan.readPart E ⟨0, Text.trim text.toList⟩ = .ok s := by
    intro s
    rw [toOption_read, Selector.toOption_read_eq_some_iff,
      String.toList_ofList]
  cases hTaken :
      takesBlank false (Text.trim text.toList)
        (Text.endBlanks text.toList) with
  | false =>
      refine iff_of_true (Option.ext fun s => ?_) (.inl rfl)
      rw [Selector.toOption_read_eq_some_iff, hTrimmed,
        Scan.readPart_trim hTaken]
  | true =>
      constructor
      · intro hSame
        have hNone : (Selector.read E text).toOption = none := by
          rw [Option.eq_none_iff_forall_ne_some]
          intro s hSome
          have hRead := (hTrimmed s).1 (hSame ▸ hSome)
          exact Scan.readPart_ne_trim hTaken hRead
            (Selector.toOption_read_eq_some_iff.1 hSome)
        rw [hNone] at hSame
        exact .inr ⟨hNone, Option.map_eq_none_iff.1 hSame.symm⟩
      · rintro (hFalse | ⟨hNone, hNone'⟩)
        · simp at hFalse
        · rw [hNone, hNone']
          rfl

/-
  The two ways to read a text agree exactly where no blank at
  its end is taken into a name, unless neither way gives a
  selector.  ASCII blanks are never taken if no backslash is
  the last character before them.
-/
theorem read_agrees (E : Engine) (text : String) :
    ((Selector.read E text).toOption = (read E text).toOption.map selector ↔
      takesBlank false (Text.trim text.toList) (Text.endBlanks text.toList)
          = false ∨
        (Selector.read E text).toOption = none ∧
          (read E text).toOption = none) ∧
      ((Text.trim text.toList).getLast? ≠ some '\\' →
        (∀ x ∈ Text.endBlanks text.toList, x.toNat < 128) →
          (Selector.read E text).toOption =
            (read E text).toOption.map selector) := by
  have hIff := toOption_read_eq_iff E text
  refine ⟨hIff, fun hLast hAscii => hIff.2 (.inl ?_)⟩
  have hBlanks := Text.areBlanks_endBlanks text.toList
  refine takesBlank_of_no_slash hBlanks (fun x hMem => ?_) hLast false
  refine (isAsciiBlank_spec ?_).2.1
  simp [Text.isAsciiBlank, hBlanks x hMem, hAscii x hMem]

/- The space behind `a` makes no difference. -/
theorem read_agrees_space :
    (Text.trim "a ".toList).getLast? ≠ some '\\' ∧
      (∀ x ∈ Text.endBlanks "a ".toList, x.toNat < 128) ∧
        (Selector.read .standard "a ").toOption =
          (read .standard "a ").toOption.map selector := by
  have hLast : (Text.trim "a ".toList).getLast? ≠ some '\\' := by decide
  have hAscii : ∀ x ∈ Text.endBlanks "a ".toList, x.toNat < 128 :=
    List.all_iff_forall_prop.1 (by decide)
  exact ⟨hLast, hAscii, (read_agrees .standard "a ").2 hLast hAscii⟩

/- The no-break space behind `a` becomes a part of the name. -/
theorem read_disagrees_no_break_space :
    Text.trim "a\u00a0".toList ≠ [] ∧
      (Selector.read .standard "a\u00a0").toOption ≠
        (read .standard "a\u00a0").toOption.map selector := by
  have hWhole :
      Selector.read .standard "a\u00a0" = .ok (.tag (.name "a\u00a0")) := by
    with_unfolding_all rfl
  have hTrimmed :
      (read .standard "a\u00a0").toOption.map selector =
        some (.tag (.name "a")) := by
    with_unfolding_all rfl
  refine ⟨by decide, ?_⟩
  rw [hWhole, hTrimmed]
  simp [Except.toOption]

end Query

end TreeQuery
