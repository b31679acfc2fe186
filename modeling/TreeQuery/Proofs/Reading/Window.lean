import TreeQuery.Pattern.Standard
import TreeQuery.Proofs.Reading.Chain
import TreeQuery.Proofs.Reading.Shift

/-
  Windows of a query.

  A selector within a query is a window of its text.  It is
  read as a query of its own, except that its faults name the
  whole query and keep the offsets of the whole query.

  Key definitions include:
    * `Text.window?`
    * `ParseError.inside`
    * `Selector.readWindow?`
    * `Nesting.around`

  Main statements:
    * `Selector.readWindow?_whole`
    * `Scan.readPart_around`
    * `Selector.window_reads_as_query`
-/

namespace TreeQuery

variable {E : Engine}

------------------------------------------------------------
-- Windows
------------------------------------------------------------

/-
  The `len` bytes of a text behind its first `start` bytes, if
  characters begin and end there.
-/
def Text.window? (start len : Nat) (text : List Char) :
    Option (List Char) :=
  (cutAtByte? start text).bind fun (_, rest) =>
    (cutAtByte? len rest).map Prod.fst

/- The whole text is a window of itself. -/
theorem Text.window?_whole (text : List Char) :
    window? 0 (byteLength text) text = some text := by
  have hCut : cutAtByte? (byteLength text) text = some (text, []) :=
    cutAtByte?_eq_some_iff.2 ⟨List.append_nil text, rfl⟩
  simp [window?, cutAtByte?, hCut]

theorem Text.byteLength_window?
    {start len : Nat}
    {text window : List Char}
    (h : window? start len text = some window) :
    byteLength window = len := by
  rcases Option.bind_eq_some_iff.1 h with ⟨⟨before, rest⟩, _, hRest⟩
  rcases Option.map_eq_some_iff.1 hRest with ⟨⟨head, tail⟩, hCut, rfl⟩
  exact (cutAtByte?_eq_some_iff.1 hCut).2

/-
  The error of a query that stands in another one behind its
  first `start` bytes.  The cause is the same.
-/
def ParseError.inside
    (e : ParseError)
    (start : Nat)
    (query : String) : ParseError :=
  ⟨⟨e.fault.cause, e.fault.offset + start⟩, query⟩

namespace Selector

/-
  The selector that a window of a query writes.  Offsets are
  those of the query.
-/
def readWindow? (E : Engine) (query : String) (start len : Nat) :
    Option (Except ParseError (Selector E)) :=
  (Text.window? start len query.toList).map fun text =>
    (Scan.readPart E (.before start text)).mapError (⟨·, query⟩)

theorem read_eq_mapError (query : String) :
    read E query =
      (Scan.readPart E (.before 0 query.toList)).mapError (⟨·, query⟩) := by
  unfold read
  cases Scan.readPart E (.before 0 query.toList) with
  | error fault => rfl
  | ok s => rfl

/- A query is read as its whole window. -/
theorem readWindow?_whole (query : String) :
    readWindow? E query 0 (Text.byteLength query.toList) =
      some (read E query) := by
  rw [readWindow?, Text.window?_whole, Option.map_some, read_eq_mapError]

/- What a query writes is written by its text inside of another one. -/
theorem readPart_inside
    (text query : String)
    (start : Nat) :
    (Scan.readPart E (.before start text.toList)).mapError (⟨·, query⟩) =
      (read E text).mapError (·.inside start query) := by
  have hShift :=
    Scan.readPart_shift (E := E) start (.before 0 text.toList)
  rw [Cursor.before, Cursor.shift, Nat.zero_add] at hShift
  rw [Cursor.before, hShift, read_eq_mapError, Cursor.before]
  cases Scan.readPart E ⟨0, text.toList⟩ with
  | error fault => rfl
  | ok s => rfl

end Selector

------------------------------------------------------------
-- Selectors of One Part
------------------------------------------------------------

namespace Scan

variable {nested : Cursor → Except Fault (Selector E)}

/- A part is the whole selector if nothing follows it. -/
theorem group_of_part?
    {x : Char}
    (hBegins : beginsCompound x = true)
    {o : Nat}
    {rest : List Char}
    {s : Selector E}
    {e : Nat}
    (h : part? nested [] ⟨o, x :: rest⟩ = .ok (some s) ⟨e, []⟩) :
    group nested ⟨o, x :: rest⟩ = .ok s ⟨e, []⟩ := by
  rcases beginsCompound_spec hBegins with
    ⟨hUnblank, hComma, hCombinator⟩
  have hEnds : endsCompound [] = true := rfl
  rw [← value?_eq_some_iff] at h ⊢
  have hParts :
      value? (partsFrom nested []) ⟨o, x :: rest⟩ =
        some ([s], ⟨e, []⟩) := by
    rw [value?_partsFrom, h, Option.bind_some]
    simp only
    rw [value?_partsFrom, value?_part?_end hEnds]
    rfl
  have hChain :
      value? (chain nested) ⟨o, x :: rest⟩ = some (s, ⟨e, []⟩) := by
    rw [value?_chain, if_neg (by simp [hCombinator]), value?_compound,
      hParts]
    exact value?_chainFrom_end (.inl rfl) s e
  have hBranch :
      value? (branch nested) ⟨o, x :: rest⟩ =
        some ((s, false), ⟨e, []⟩) := by
    rw [branch, value?_bind, value?_skipBlanks, Option.bind_some,
      Cursor.skipBlanks_cons_of_not hUnblank]
    simp [hComma, hChain, value?_chomp_comma_end]
  rw [value?_group, value?_branchesFrom, hBranch]
  rfl

/- A fault of the first part is the fault of the selector. -/
theorem group_of_part?_error
    {o : Nat}
    {rest : List Char}
    {d : Cursor}
    {fault : Fault}
    (h : part? nested [] ⟨o, ':' :: rest⟩ = .error fault d) :
    group nested ⟨o, ':' :: rest⟩ = .error fault d := by
  have hUnblank : Text.isBlank ':' = false := by decide
  have hPeek :
      peek? ⟨o, ':' :: rest⟩ = .ok (some ':') ⟨o, ':' :: rest⟩ :=
    rfl
  have hSkip :
      skipBlanks ⟨o, ':' :: rest⟩ = .ok false ⟨o, ':' :: rest⟩ := by
    rw [skipBlanks, Cursor.skipBlanks_cons_of_not hUnblank]
    rfl
  have hParts : partsFrom nested [] ⟨o, ':' :: rest⟩ = .error fault d := by
    rw [partsFrom_step, h]
  have hCompound : compound nested ⟨o, ':' :: rest⟩ = .error fault d :=
    bind_eq_error hParts
  have hChain : chain nested ⟨o, ':' :: rest⟩ = .error fault d := by
    rw [chain, bind_eq_of_ok hPeek]
    exact bind_eq_error hCompound
  have hBranch : branch nested ⟨o, ':' :: rest⟩ = .error fault d := by
    rw [branch, bind_eq_of_ok hSkip, bind_eq_of_ok hPeek]
    exact bind_eq_error hChain
  have hBranches :
      branchesFrom nested [] ⟨o, ':' :: rest⟩ = .error fault d := by
    rw [branchesFrom_step, hBranch]
  exact bind_eq_error hBranches

/- After an argument a meaning that nests does what its selector does. -/
theorem meaning_nested
    (nesting : Nesting)
    {before : List (Selector E)}
    {name : String}
    {c d part : Cursor}
    (h : argument name c = .ok part d) :
    meaning nested before name (.nested nesting) c =
      match nested part with
      | .ok s => .ok (nesting.wrap s) d
      | .error fault => .error fault d := by
  rw [meaning, bind_eq_of_ok h]
  cases nested part with
  | error fault => rfl
  | ok s => rfl

end Scan

/- A query is the selector of its only part. -/
theorem Selector.read_of_part?
    {query : String}
    {x : Char}
    {rest : List Char}
    {s : Selector E}
    (hText : query.toList = x :: rest)
    (hBegins : beginsCompound x = true)
    (h : ∃ e, Scan.value? (Scan.part? (Scan.readPart E) []) ⟨0, x :: rest⟩ =
      some (some s, ⟨e, []⟩)) :
    read E query = .ok s := by
  rcases h with ⟨e, hPart⟩
  rw [Scan.value?_eq_some_iff] at hPart
  rw [read_eq_mapError, Cursor.before, hText, Scan.readPart_eq,
    Scan.group_of_part? hBegins hPart]
  rfl

------------------------------------------------------------
-- Nested Selectors
------------------------------------------------------------

namespace Nesting

/- What stands before a selector as an argument. -/
def opening : Nesting → String
| .has => ":has("
| .not => ":not("
| .is => ":is("

/- A selector as an argument. -/
def around (nesting : Nesting) (text : String) : String :=
  nesting.opening ++ text ++ ")"

/- A selector stands behind the name of what it is asked for. -/
theorem exists_name (nesting : Nesting) :
    ∃ name,
      nesting.opening.toList = ':' :: (name.toList ++ ['(']) ∧
        ∀ E : Engine, pseudoClass? E (Text.asciiLowerString name) =
          some (.nested nesting) := by
  cases nesting with
  | has => exact ⟨"has", rfl, fun _ => rfl⟩
  | not => exact ⟨"not", rfl, fun _ => rfl⟩
  | is => exact ⟨"is", rfl, fun _ => rfl⟩

theorem toList_around
    (nesting : Nesting)
    (text : String) :
    ∃ name,
      (nesting.around text).toList =
          ':' :: (name.toList ++ '(' :: (text.toList ++ [')'])) ∧
        nesting.opening.toList = ':' :: (name.toList ++ ['(']) ∧
          ∀ E : Engine, pseudoClass? E (Text.asciiLowerString name) =
            some (.nested nesting) := by
  rcases nesting.exists_name with ⟨name, hOpening, hKnown⟩
  exact ⟨name, by simp [around, hOpening], hOpening, hKnown⟩

/- What is nested is neat if its argument is passed over. -/
theorem isNeat_around
    (nesting : Nesting)
    {text : String}
    (h : Spans '(' ')' text.toList) :
    IsNeat (nesting.around text).toList := by
  have hName :
      ∃ name, name ≠ [] ∧ (∀ c ∈ name, IsQuiet c) ∧
        nesting.opening.toList = name ++ ['('] := by
    cases nesting with
    | has =>
        exact ⟨":has".toList, by decide,
          List.all_iff_forall_prop.1 (by decide), rfl⟩
    | not =>
        exact ⟨":not".toList, by decide,
          List.all_iff_forall_prop.1 (by decide), rfl⟩
    | is =>
        exact ⟨":is".toList, by decide,
          List.all_iff_forall_prop.1 (by decide), rfl⟩
  rcases hName with ⟨name, hSome, hQuiet, hOpening⟩
  have hCall := isNeat_call hSome hQuiet h
  simpa [around, hOpening] using hCall

/- The number of bytes before a selector within several others. -/
def bytesBefore : List Nesting → Nat
| [] => 0
| nesting :: nestings =>
    Text.byteLength nesting.opening.toList + bytesBefore nestings

example : bytesBefore [.not] = 5 := rfl

end Nesting

namespace Scan

/-
  A selector as an argument makes up a part of its own, and the
  blanks around it do not count.
-/
theorem part?_around
    (nested : Cursor → Except Fault (Selector E))
    (nesting : Nesting)
    {text : String}
    (hText : isBalanced '(' ')' text.toList = true)
    (hSome : Text.trim text.toList ≠ [])
    (o : Nat) :
    ∃ o', part? nested [] ⟨o, (nesting.around text).toList⟩ =
      match nested
        ⟨(Cursor.skipBlanks
            ⟨o + Text.byteLength nesting.opening.toList, text.toList⟩).offset,
          Text.trim text.toList⟩ with
      | .ok s => .ok (some (nesting.wrap s)) ⟨o', []⟩
      | .error fault => .error fault ⟨o', []⟩ := by
  rcases nesting.toList_around text with ⟨name, hSplit, hOpening, hKnown⟩
  have hBytes :
      o + ':'.utf8Size + Text.byteLength name.toList + '('.utf8Size =
        o + Text.byteLength nesting.opening.toList := by
    simp only [hOpening, Text.byteLength_cons, Text.byteLength_append,
      Text.byteLength_nil]
    omega
  have hEnds : endsName ('(' :: (text.toList ++ [')'])) = true := rfl
  let c : Cursor :=
    ⟨o + ':'.utf8Size + Text.byteLength name.toList,
      '(' :: (text.toList ++ [')'])⟩
  have hArgument :
      argument (Text.asciiLowerString name) c =
        .ok ⟨(Cursor.skipBlanks
            ⟨o + ':'.utf8Size + Text.byteLength name.toList + '('.utf8Size,
              text.toList⟩).offset, Text.trim text.toList⟩ (c.moveTo []) :=
    argument_eq_ok_iff.2
      ⟨text.toList, spans_of_isBalanced hText, hSome, rfl, rfl, rfl⟩
  rw [hBytes] at hArgument
  have hPart :=
    (pseudoClass_named nested (hKnown E) hEnds [] o).trans
      (meaning_nested nesting hArgument)
  refine ⟨(c.moveTo []).offset, ?_⟩
  rw [hSplit]
  change
    (some <$> pseudoClass nested [])
        ⟨o, ':' :: (name.toList ++ '(' :: (text.toList ++ [')']))⟩ = _
  simp only [Functor.map, EStateM.map, hPart]
  cases nested
      ⟨(Cursor.skipBlanks
          ⟨o + Text.byteLength nesting.opening.toList, text.toList⟩).offset,
        Text.trim text.toList⟩ with
  | error fault => rfl
  | ok s => rfl

/- It is read as it is where it stands. -/
theorem readPart_around
    (nesting : Nesting)
    {text : String}
    (hText : IsNeat text.toList)
    (o : Nat) :
    readPart E ⟨o, (nesting.around text).toList⟩ =
      (readPart E
        ⟨o + Text.byteLength nesting.opening.toList, text.toList⟩).map
          nesting.wrap := by
  rcases nesting.toList_around text with ⟨name, hRest, _⟩
  have hText' := hText.isArgument
  simp only [isArgument, Bool.and_eq_true, beq_iff_eq] at hText'
  rcases hText.starts with ⟨x, xs, hHead, hUnblank⟩
  have hSkip :
      Cursor.skipBlanks
          ⟨o + Text.byteLength nesting.opening.toList, text.toList⟩ =
        ⟨o + Text.byteLength nesting.opening.toList, text.toList⟩ := by
    rw [hHead]
    exact Cursor.skipBlanks_cons_of_not hUnblank _ _
  have hSome : Text.trim text.toList ≠ [] := by
    rw [hText'.2, hHead]
    simp
  rcases part?_around (readPart E) nesting hText'.1 hSome o with ⟨o', hPart⟩
  rw [hSkip, hText'.2] at hPart
  rw [readPart_eq]
  rw [hRest] at hPart ⊢
  cases hInner : readPart E
      ⟨o + Text.byteLength nesting.opening.toList, text.toList⟩ with
  | error fault =>
      rw [hInner] at hPart
      rw [group_of_part?_error hPart]
      rfl
  | ok s =>
      rw [hInner] at hPart
      rw [group_of_part? (by decide) hPart]
      rfl

/- So it is at any depth. -/
theorem readPart_foldr_around
    (nestings : List Nesting)
    {text : String}
    (hText : IsNeat text.toList)
    (o : Nat) :
    IsNeat (nestings.foldr Nesting.around text).toList ∧
      readPart E ⟨o, (nestings.foldr Nesting.around text).toList⟩ =
        (readPart E ⟨o + Nesting.bytesBefore nestings, text.toList⟩).map
          fun s => nestings.foldr Nesting.wrap s := by
  induction nestings generalizing o with
  | nil =>
      refine ⟨hText, ?_⟩
      have hBytes : o + Nesting.bytesBefore [] = o := rfl
      rw [List.foldr_nil, hBytes]
      cases readPart E ⟨o, text.toList⟩ with
      | error fault => rfl
      | ok s => rfl
  | cons nesting nestings ih =>
      have hBytes :
          o + Text.byteLength nesting.opening.toList +
              Nesting.bytesBefore nestings =
            o + Nesting.bytesBefore (nesting :: nestings) := by
        rw [Nesting.bytesBefore, Nat.add_assoc]
      rcases ih (o + Text.byteLength nesting.opening.toList) with
        ⟨hNeat, hRead⟩
      refine ⟨nesting.isNeat_around hNeat.spans, ?_⟩
      rw [List.foldr_cons, readPart_around nesting hNeat, hRead, hBytes]
      cases readPart E
          ⟨o + Nesting.bytesBefore (nesting :: nestings), text.toList⟩ with
      | error fault => rfl
      | ok s => rfl

/- A text that is read between parentheses closes what it opens. -/
theorem isBalanced_of_balanced
    {text : List Char}
    {c : Cursor}
    (h :
      balanced '(' ')' .unbalancedParenthesis
          (.before 0 ('(' :: text ++ [')'])) =
        .ok (.before 1 text) c) :
    isBalanced '(' ')' text = true := by
  cases hRead : readBalanced? '(' ')' 0 none (text ++ [')']) with
  | none => simp [balanced, Cursor.before, hRead] at h
  | some read =>
      rcases read with ⟨content, rest⟩
      have hSplit := readBalanced?_split hRead
      simp only [balanced, Cursor.before, List.cons_append, ↓reduceIte,
        hRead, EStateM.Result.ok.injEq, Cursor.mk.injEq] at h
      rcases h with ⟨⟨_, rfl⟩, _⟩
      have hRest : rest = [] := by simpa using hSplit
      rw [isBalanced, hRead, hRest]
      exact beq_self_eq_true _

end Scan

namespace Selector

/-
  Every window of a query is read as a query of its own: the
  same selector, or the same cause at an offset that is moved
  by the bytes before the window.  So is a selector within
  `:has`, `:not` and `:is`, at any depth, if it closes what it
  opens and has no outer blanks.
-/
theorem window_reads_as_query (E : Engine) :
    (∀ (query window : String) (start len : Nat),
      Text.window? start len query.toList = some window.toList →
        readWindow? E window 0 len = some (read E window) ∧
          readWindow? E query start len =
            some ((read E window).mapError (·.inside start query))) ∧
      (∀ (nestings : List Nesting) (text : String) (c : Cursor),
        text ≠ "" →
        Text.trim text.toList = text.toList →
        Scan.balanced '(' ')' .unbalancedParenthesis
            (.before 0 ('(' :: text.toList ++ [')'])) =
          .ok (.before 1 text.toList) c →
        read E (nestings.foldr Nesting.around text) =
          match read E text with
          | .ok s => .ok (nestings.foldr Nesting.wrap s)
          | .error e =>
              .error (e.inside (Nesting.bytesBefore nestings)
                (nestings.foldr Nesting.around text))) := by
  refine ⟨?_, ?_⟩
  · intro query window start len hWindow
    have hBytes : Text.byteLength window.toList = len :=
      Text.byteLength_window? hWindow
    refine ⟨?_, ?_⟩
    · rw [← hBytes, readWindow?_whole]
    · rw [readWindow?, hWindow, Option.map_some, readPart_inside]
  · intro nestings text c hText hTrim hRead
    have hSome : text.toList ≠ [] := by
      intro hNil
      exact hText (by simpa using hNil)
    have hArgument : isArgument text.toList = true := by
      rw [isArgument, Scan.isBalanced_of_balanced hRead, hTrim]
      simp
    have hNeat := isNeat_of_isArgument hArgument hSome
    have hNested :=
      (Scan.readPart_foldr_around (E := E) nestings hNeat 0).2
    have hShift :=
      Scan.readPart_shift (E := E) (Nesting.bytesBefore nestings)
        (.before 0 text.toList)
    rw [read_eq_mapError, Cursor.before, hNested]
    rw [Cursor.before, Cursor.shift] at hShift
    rw [hShift, read_eq_mapError, Cursor.before]
    cases Scan.readPart E ⟨0, text.toList⟩ with
    | error fault => rfl
    | ok s => rfl

/-
  The window `é .b:foo` of `:is(é .b:foo)` names no
  pseudo-class, and `> b:eq(1)` is read within two others.
-/
theorem window_reads_as_query_not_has :
    readWindow? .standard ":is(é .b:foo)" 4 9 =
        some (.error ⟨⟨.unknownPseudoClass "foo", 9⟩, ":is(é .b:foo)"⟩) ∧
      read .standard ":not(:has(> b:eq(1)))" =
        .ok (.not (.has (.combine .child .scope (.compound
          [.tag (.name "b"),
           .index .equalTo 1
             (.combine .child .scope (.tag (.name "b")))])))) := by
  have hWindow :
      Text.window? 4 9 ":is(é .b:foo)".toList = some "é .b:foo".toList := by
    decide
  have hFault :
      read .standard "é .b:foo" =
        .error ⟨⟨.unknownPseudoClass "foo", 5⟩, "é .b:foo"⟩ := by
    with_unfolding_all rfl
  have hRead :
      read .standard "> b:eq(1)" =
        .ok (.combine .child .scope (.compound
          [.tag (.name "b"),
           .index .equalTo 1
             (.combine .child .scope (.tag (.name "b")))])) := by
    with_unfolding_all rfl
  have hBalanced :
      Scan.balanced '(' ')' .unbalancedParenthesis
          (.before 0 ('(' :: "> b:eq(1)".toList ++ [')'])) =
        .ok (.before 1 "> b:eq(1)".toList) ⟨11, []⟩ := by
    with_unfolding_all rfl
  have hInside :=
    ((window_reads_as_query .standard).1
      ":is(é .b:foo)" "é .b:foo" 4 9 hWindow).2
  have hNested :=
    (window_reads_as_query .standard).2 [.not, .has] "> b:eq(1)" ⟨11, []⟩
      (by decide) (by decide) hBalanced
  refine ⟨?_, ?_⟩
  · rw [hInside, hFault]
    rfl
  · rw [hRead] at hNested
    exact hNested

end Selector

end TreeQuery
