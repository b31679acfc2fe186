import TreeQuery.Reading.Compound

/-
  Selector groups: chains of compounds, separated by commas.

  A chain relates each compound to what stands before it.  A
  chain that begins with the sign of a combinator relates its
  first compound to the scope.

  Key definitions include:
    * `Selector.relate`
    * `Scan.chain`
    * `Scan.branchesFrom`
    * `Scan.readPart`
    * `Selector.read`

  Main statements:
    * `Scan.advances_chain`
-/

namespace TreeQuery

variable {E : Engine}

------------------------------------------------------------
-- Combinators
------------------------------------------------------------

/- The combinator that a sign stands for. -/
def combinator? (c : Char) : Option Combinator :=
  if c = '>' then some .child
  else if c = '+' then some .adjacent
  else if c = '~' then some .sibling
  else none

namespace Selector

/-
  Let an index count only the candidates that a combinator
  relates to its left operand.
-/
def anchorIndex (c : Combinator) (left : Selector E) :
    Selector E → Selector E
| .index test n candidate => .index test n (.combine c left candidate)
| s => s

/- Let every index of a compound count as `anchorIndex` does. -/
def anchorIndexes (c : Combinator) (left : Selector E) :
    Selector E → Selector E
| .compound parts => .compound (parts.map (anchorIndex c left))
| s => anchorIndex c left s

/- Relate a compound to a left operand. -/
def relate (c : Combinator) (left right : Selector E) : Selector E :=
  .combine c left (anchorIndexes c left right)

end Selector

namespace Scan

------------------------------------------------------------
-- Chains
------------------------------------------------------------

/- How a chain goes on after blanks. -/
inductive Link where
| finished
| related (c : Combinator)
deriving DecidableEq, Repr

/-
  Read what stands between two compounds of a chain: blanks,
  the sign of a combinator, or both.
-/
def link : Scan Link := do
  let spaced ← skipBlanks
  match ← peek? with
  | none => return .finished
  | some d =>
      if d = ',' then return .finished
      else
        match combinator? d with
        | some c => do
            advance
            let _ ← skipBlanks
            if ← isAtEnd then fail (.expectedSelectorAfter d)
            else return .related c
        | none =>
            if spaced then return .related .descendant
            else fail (.unexpected d)

/- What comes next in a chain: another compound, or its end. -/
def next?
    (nested : Cursor → Except Fault (Selector E)) :
    Scan (Option (Combinator × Selector E)) := do
  match ← link with
  | .finished => return none
  | .related c => return some (c, ← compound nested)

theorem advances_link : Advances link := by
  unfold link
  refine advances_skipBlanks.bind fun spaced => ?_
  refine advances_peek?.bind fun next => ?_
  split
  · exact Advances.pure _
  · refine Advances.ite (Advances.pure _) ?_
    split
    · refine advances_advance.bind fun _ => ?_
      refine advances_skipBlanks.bind fun _ => ?_
      refine advances_isAtEnd.bind fun _ => Advances.ite ?_ ?_
      · exact advances_fail _
      · exact Advances.pure _
    · exact Advances.ite (Advances.pure _) (advances_fail _)

theorem advances_next? (nested : Cursor → Except Fault (Selector E)) :
    Advances (next? nested) := by
  unfold next?
  refine advances_link.bind fun link => ?_
  cases link with
  | finished => exact Advances.pure _
  | related c =>
      exact (advances_compound nested).bind fun _ => Advances.pure _

/- A compound that comes next is not empty. -/
theorem length_lt_of_next?
    {nested : Cursor → Except Fault (Selector E)}
    {c d : Cursor}
    {step : Combinator × Selector E}
    (h : next? nested c = .ok (some step) d) :
    d.rest.length < c.rest.length := by
  rcases bind_eq_ok_iff.1 h with ⟨link, e, hLink, hStep⟩
  have hLess := advances_link.length_le hLink
  cases link with
  | finished =>
      rcases pure_eq_ok_iff.1 hStep with ⟨hNone, _⟩
      simp at hNone
  | related combinator =>
      rcases bind_eq_ok_iff.1 hStep with ⟨s, f, hRead, hPair⟩
      rcases pure_eq_ok_iff.1 hPair with ⟨_, rfl⟩
      have hCompound := consumes_compound nested e f s hRead
      omega

/- Read the compounds of a chain after a left operand. -/
def chainFrom
    (nested : Cursor → Except Fault (Selector E))
    (left : Selector E)
    (c : Cursor) : EStateM.Result Fault Cursor (Selector E) :=
  match h : next? nested c with
  | .ok (some (combinator, right)) d =>
      have := length_lt_of_next? h
      chainFrom nested (left.relate combinator right) d
  | .ok none d => .ok left d
  | .error fault d => .error fault d
termination_by c.rest.length

/-
  Read a chain.  The scope stands before a chain that begins
  with the sign of a combinator.
-/
def chain
    (nested : Cursor → Except Fault (Selector E)) :
    Scan (Selector E) := do
  if ((← peek?).bind combinator?).isSome then chainFrom nested .scope
  else chainFrom nested (← compound nested)

theorem advances_chainFrom
    (nested : Cursor → Except Fault (Selector E))
    (left : Selector E) :
    Advances (chainFrom nested left) := by
  intro c
  fun_induction chainFrom nested left c with
  | case1 left c combinator right d h _ ih =>
      have hNext := advances_next? nested c
      rw [h] at hNext
      exact hNext.trans ih
  | case2 left c d h =>
      have hNext := advances_next? nested c
      rw [h] at hNext
      exact hNext
  | case3 left c fault d h =>
      have hNext := advances_next? nested c
      rw [h] at hNext
      exact hNext

theorem advances_chain (nested : Cursor → Except Fault (Selector E)) :
    Advances (chain nested) := by
  unfold chain
  refine advances_peek?.bind fun next => Advances.ite ?_ ?_
  · exact advances_chainFrom nested .scope
  · exact (advances_compound nested).bind fun s =>
      advances_chainFrom nested s

------------------------------------------------------------
-- Groups
------------------------------------------------------------

/- Read one branch, and tell whether a comma follows it. -/
def branch (nested : Cursor → Except Fault (Selector E)) :
    Scan (Selector E × Bool) := do
  let _ ← skipBlanks
  if (← peek?).all (· == ',') then fail .emptySelector
  else
    let s ← chain nested
    return (s, ← chomp ",")

theorem advances_branch (nested : Cursor → Except Fault (Selector E)) :
    Advances (branch nested) := by
  unfold branch
  refine advances_skipBlanks.bind fun _ => ?_
  refine advances_peek?.bind fun _ => Advances.ite ?_ ?_
  · exact advances_fail _
  · refine (advances_chain nested).bind fun s => ?_
    exact (advances_chomp _).bind fun _ => Advances.pure _

/- A branch that a comma follows is not empty. -/
theorem length_lt_of_branch
    {nested : Cursor → Except Fault (Selector E)}
    {c d : Cursor}
    {s : Selector E}
    (h : branch nested c = .ok (s, true) d) :
    d.rest.length < c.rest.length := by
  rcases bind_eq_ok_iff.1 h with ⟨_, e, hBlanks, hRest⟩
  have hFirst := advances_skipBlanks.length_le hBlanks
  rcases bind_eq_ok_iff.1 hRest with ⟨_, f, hPeek, hRest⟩
  cases hPeek
  split at hRest
  · simp [fail] at hRest
  · rcases bind_eq_ok_iff.1 hRest with ⟨left, f, hChain, hRest⟩
    have hLess := (advances_chain nested).length_le hChain
    rcases bind_eq_ok_iff.1 hRest with ⟨comma, g, hComma, hRest⟩
    rcases pure_eq_ok_iff.1 hRest with ⟨hPair, rfl⟩
    cases hPair
    unfold chomp at hComma
    split at hComma
    · next hChomp =>
        cases hComma
        have hShort := Cursor.length_chomp?_lt (by simp) hChomp
        omega
    · simp at hComma

/- Read the branches of a group after others. -/
def branchesFrom
    (nested : Cursor → Except Fault (Selector E))
    (branches : List (Selector E))
    (c : Cursor) : EStateM.Result Fault Cursor (List (Selector E)) :=
  match h : branch nested c with
  | .ok (s, true) d =>
      have := length_lt_of_branch h
      branchesFrom nested (branches ++ [s]) d
  | .ok (s, false) d => .ok (branches ++ [s]) d
  | .error fault d => .error fault d
termination_by c.rest.length

/- Read a group of one branch at least. -/
def group
    (nested : Cursor → Except Fault (Selector E)) :
    Scan (Selector E) := do
  return .ofBranches (← branchesFrom nested [])

------------------------------------------------------------
-- Whole Selectors
------------------------------------------------------------

/-
  The selector that a part of a query writes.  The selectors
  within it are written in smaller parts.
-/
def readPart (E : Engine) (part : Cursor) :
    Except Fault (Selector E) :=
  let nested (inner : Cursor) : Except Fault (Selector E) :=
    if inner.rest.length < part.rest.length then readPart E inner
    else .error ⟨.emptySelector, inner.offset⟩
  match group nested part with
  | .ok s _ => .ok s
  | .error fault _ => .error fault
termination_by part.rest.length

end Scan

namespace Selector

/- The selector that a query writes for an engine. -/
def read (E : Engine) (query : String) :
    Except ParseError (Selector E) :=
  match Scan.readPart E (.before 0 query.toList) with
  | .ok s => .ok s
  | .error fault => .error ⟨fault, query⟩

end Selector

end TreeQuery
