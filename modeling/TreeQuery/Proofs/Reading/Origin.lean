import TreeQuery.Pattern.Standard
import TreeQuery.Proofs.Reading.Argument
import TreeQuery.Proofs.Reading.Bounds
import TreeQuery.Proofs.Reading.NormalForm

/-
  Where the texts of a selector that is read come from.

  What holds of every part where it is read holds of all the
  parts that stand anywhere in the selector, in arguments and
  candidates too.  So each text in it is looked up where it is
  written: attribute values and patterns are empty only where
  this makes sense, and a needle is made of an argument that
  stands in the query.

  Key definitions include:
    * `Selector.Throughout`
    * `Selector.IsOfTests`
    * `Selector.IsFounded`

  Main statements:
    * `Scan.throughout_of_readPart`
    * `Selector.texts_are_founded_or_refused`
-/

namespace TreeQuery

variable {E : Engine}

namespace Selector

------------------------------------------------------------
-- All Parts
------------------------------------------------------------

/- All parts of the selector and of those within it satisfy `Q`. -/
def Throughout (Q : Selector E → Prop) (s : Selector E) : Prop :=
  ∀ u, Occurs u s → ∀ part ∈ u.partsOf, Q part

/-
  The property is about single tests.  It holds of every
  combination, and it does not look at candidates.
-/
structure IsOfTests (Q : Selector E → Prop) : Prop where
  combined : ∀ s : Selector E, s.isSimple = false → Q s
  universal : Q .universal
  scope : Q .scope
  anchored : ∀ (c : Combinator) (left part : Selector E),
    Q part → Q (anchorIndex c left part)

/- Parts that satisfy `Q` with all that they hold. -/
def AreSound (Q : Selector E → Prop) (parts : List (Selector E)) : Prop :=
  ∀ part ∈ parts,
    part.isSimple = true ∧ Q part ∧ ∀ t ∈ part.held, t.Throughout Q

variable {Q : Selector E → Prop} {left right s : Selector E}
  {parts : List (Selector E)}

theorem throughout_of_operands
    (hHere : ∀ part ∈ s.partsOf, Q part)
    (hWithin : ∀ t ∈ s.operands, t.Throughout Q) :
    s.Throughout Q := by
  intro u hOccurs
  cases hOccurs with
  | here => exact hHere
  | within hOperand hRest => exact hWithin _ hOperand u hRest

theorem AreSound.simple (h : AreSound Q parts) :
    ∀ part ∈ parts, part.isSimple = true := fun part hMem =>
  (h part hMem).1

/- So does their compound. -/
theorem AreSound.throughout (h : AreSound Q parts) :
    (ofParts parts).Throughout Q := by
  apply throughout_of_operands
  · rw [partsOf_ofParts h.simple]
    exact fun part hMem => (h part hMem).2.1
  · rw [operands_ofParts h.simple]
    intro t hOperand
    rcases List.mem_flatMap.1 hOperand with ⟨part, hMem, hHeld⟩
    exact (h part hMem).2.2 t hHeld

theorem areSound_singleton
    (hSimple : s.isSimple = true)
    (hTest : Q s)
    (hHeld : s.held = []) :
    AreSound Q [s] := by
  intro part hMem
  rw [List.mem_singleton.1 hMem, hHeld]
  exact ⟨hSimple, hTest, by simp⟩

namespace IsOfTests

variable (hQ : IsOfTests Q)

include hQ

theorem throughout_combine
    (c : Combinator)
    (hLeft : left.Throughout Q)
    (hRight : right.Throughout Q) :
    (Selector.combine c left right).Throughout Q := by
  apply throughout_of_operands
  · intro part hMem
    rw [List.mem_singleton.1 hMem]
    exact hQ.combined _ rfl
  · intro t hOperand
    rcases List.mem_pair.1 hOperand with rfl | rfl
    · exact hLeft
    · exact hRight

theorem throughout_indexCandidate (h : AreSound Q parts) :
    (Scan.indexCandidate parts).Throughout Q := by
  cases parts with
  | nil => exact (areSound_singleton rfl hQ.universal rfl).throughout
  | cons part parts => exact h.throughout

/- A combinator is put on the candidates, which hold it then. -/
theorem areSound_anchored
    (c : Combinator)
    (hLeft : left.Throughout Q)
    (h : AreSound Q parts) :
    AreSound Q (parts.map (anchorIndex c left)) := by
  intro part hMem
  rcases List.mem_map.1 hMem with ⟨written, hWritten, rfl⟩
  rcases h written hWritten with ⟨hSimple, hTest, hHeld⟩
  refine ⟨?_, hQ.anchored c left written hTest, ?_⟩
  · rw [isSimple_anchorIndex, hSimple]
  · cases written with
    | index test k candidate =>
        intro t hCandidate
        rw [List.mem_singleton.1 hCandidate]
        exact hQ.throughout_combine c hLeft
          (hHeld candidate (List.mem_singleton.2 rfl))
    | _ => exact hHeld

theorem throughout_relate
    (c : Combinator)
    (hLeft : left.Throughout Q)
    (h : AreSound Q parts) :
    (left.relate c (ofParts parts)).Throughout Q := by
  rw [relate, anchorIndexes_ofParts h.simple]
  exact hQ.throughout_combine c hLeft
    (hQ.areSound_anchored c hLeft h).throughout

theorem throughout_ofBranches
    {branches : List (Selector E)}
    (h : ∀ b ∈ branches, b.Throughout Q) :
    (ofBranches branches).Throughout Q := by
  have hGroup : (Selector.group branches).Throughout Q := by
    apply throughout_of_operands
    · intro part hMem
      rw [List.mem_singleton.1 hMem]
      exact hQ.combined _ rfl
    · exact h
  rcases branches with _ | ⟨b, _ | ⟨next, rest⟩⟩
  · exact hGroup
  · exact h b (by simp)
  · exact hGroup

end IsOfTests

end Selector

------------------------------------------------------------
-- Parts Where They Are Read
------------------------------------------------------------

namespace Scan

open Selector

section Tests

variable
  {Q : Selector E → Prop}
  {nested : Cursor → Except Fault (Selector E)}
  {part c d : Cursor}
  {s : Selector E}
  (hQ : IsOfTests Q)
  (hNested : ∀ inner t, nested inner = .ok t → t.Throughout Q)
  (hTest :
    ∀ before c d s, part.Reaches c →
      part? nested before c = .ok (some s) d → Q s)

include hQ hNested hTest

/- The candidate of an index is what has been read before it. -/
theorem areSound_partsFrom
    {before parts : List (Selector E)}
    (hReach : part.Reaches c)
    (hBefore : AreSound Q before)
    (h : partsFrom nested before c = .ok parts d) :
    AreSound Q parts := by
  fun_induction partsFrom nested before c with
  | case1 before c s e hPart _ ih =>
      have hShape := shape_part? hNested (value?_eq_some_iff.2 hPart)
      refine ih ((advances_part? nested before).reaches hReach hPart) ?_ h
      intro q hMem
      rcases List.mem_append.1 hMem with hOld | hNew
      · exact hBefore q hOld
      · rw [List.mem_singleton.1 hNew]
        refine ⟨hShape.isSimple, hTest _ _ _ _ hReach hPart, ?_⟩
        intro t hHeld
        rcases hShape.of_mem_held hHeld with hArgument | rfl
        · exact hArgument
        · exact hQ.throughout_indexCandidate hBefore
  | case2 before c e hPart =>
      cases h
      exact hBefore
  | case3 before c fault e hPart => cases h

theorem areSound_compound
    (hReach : part.Reaches c)
    (h : compound nested c = .ok s d) :
    ∃ parts, AreSound Q parts ∧ s = ofParts parts := by
  rcases bind_eq_ok_iff.1 h with ⟨parts, e, hParts, hMake⟩
  have hSound :=
    areSound_partsFrom hQ hNested hTest hReach (by simp [AreSound]) hParts
  split at hMake
  · rcases bind_eq_ok_iff.1 hMake with ⟨_, f, _, hFail⟩
    cases hFail
  · rcases pure_eq_ok_iff.1 hMake with ⟨rfl, _⟩
    exact ⟨parts, hSound, rfl⟩

theorem areSound_next?
    {combinator : Combinator}
    (hReach : part.Reaches c)
    (h : next? nested c = .ok (some (combinator, s)) d) :
    ∃ parts, AreSound Q parts ∧ s = ofParts parts := by
  rcases bind_eq_ok_iff.1 h with ⟨step, e, hLink, hNext⟩
  cases step with
  | finished => cases hNext
  | related combinator' =>
      rcases bind_eq_ok_iff.1 hNext with ⟨right, f, hRead, hPair⟩
      rcases pure_eq_ok_iff.1 hPair with ⟨hSame, _⟩
      cases hSame
      exact areSound_compound hQ hNested hTest
        (advances_link.reaches hReach hLink) hRead

theorem throughout_chainFrom
    {left : Selector E}
    (hReach : part.Reaches c)
    (hLeft : left.Throughout Q)
    (h : chainFrom nested left c = .ok s d) :
    s.Throughout Q := by
  fun_induction chainFrom nested left c with
  | case1 left c combinator right e hNext _ ih =>
      rcases areSound_next? hQ hNested hTest hReach hNext with
        ⟨parts, hParts, rfl⟩
      exact ih ((advances_next? nested).reaches hReach hNext)
        (hQ.throughout_relate combinator hLeft hParts) h
  | case2 left c e hNext =>
      cases h
      exact hLeft
  | case3 left c fault e hNext => cases h

theorem throughout_chain
    (hReach : part.Reaches c)
    (h : chain nested c = .ok s d) :
    s.Throughout Q := by
  rw [← value?_eq_some_iff, value?_chain] at h
  by_cases hSign : (c.rest.head?.bind combinator?).isSome = true
  · rw [if_pos hSign] at h
    have hScope : AreSound Q [.scope] :=
      areSound_singleton rfl hQ.scope rfl
    exact throughout_chainFrom hQ hNested hTest hReach hScope.throughout
      (value?_eq_some_iff.1 h)
  · rw [if_neg hSign, Option.bind_eq_some_iff] at h
    rcases h with ⟨⟨first, e⟩, hFirst, hRest⟩
    rw [value?_eq_some_iff] at hFirst
    rcases areSound_compound hQ hNested hTest hReach hFirst with
      ⟨parts, hParts, rfl⟩
    exact throughout_chainFrom hQ hNested hTest
      ((advances_compound nested).reaches hReach hFirst)
      hParts.throughout (value?_eq_some_iff.1 hRest)

theorem throughout_branch
    {goesOn : Bool}
    (hReach : part.Reaches c)
    (h : branch nested c = .ok (s, goesOn) d) :
    s.Throughout Q := by
  rcases bind_eq_ok_iff.1 h with ⟨_, e, hBlanks, hRest⟩
  have hStart := advances_skipBlanks.reaches hReach hBlanks
  rcases bind_eq_ok_iff.1 hRest with ⟨next, f, hPeek, hRest⟩
  cases hPeek
  split at hRest
  · cases hRest
  · rcases bind_eq_ok_iff.1 hRest with ⟨t, g, hChain, hRest⟩
    rcases bind_eq_ok_iff.1 hRest with ⟨comma, k, _, hPair⟩
    rcases pure_eq_ok_iff.1 hPair with ⟨hSame, _⟩
    cases hSame
    exact throughout_chain hQ hNested hTest hStart hChain

theorem throughout_branchesFrom
    {before branches : List (Selector E)}
    (hReach : part.Reaches c)
    (hBefore : ∀ b ∈ before, b.Throughout Q)
    (h : branchesFrom nested before c = .ok branches d) :
    ∀ b ∈ branches, b.Throughout Q := by
  have hMore :
      ∀ {before : List (Selector E)} {s : Selector E},
        (∀ b ∈ before, b.Throughout Q) → s.Throughout Q →
          ∀ b ∈ before ++ [s], b.Throughout Q := by
    intro before s hOld hNew b hMem
    rw [List.mem_append, List.mem_singleton] at hMem
    rcases hMem with hMem | rfl
    · exact hOld b hMem
    · exact hNew
  fun_induction branchesFrom nested before c with
  | case1 before c s e hBranch _ ih =>
      have hNew := throughout_branch hQ hNested hTest hReach hBranch
      exact ih ((advances_branch nested).reaches hReach hBranch)
        (hMore hBefore hNew) h
  | case2 before c s e hBranch =>
      cases h
      exact hMore hBefore
        (throughout_branch hQ hNested hTest hReach hBranch)
  | case3 before c fault e hBranch => cases h

theorem throughout_group
    (h : group nested part = .ok s d) :
    s.Throughout Q := by
  rcases bind_eq_ok_iff.1 h with ⟨branches, e, hBranches, hMake⟩
  rcases pure_eq_ok_iff.1 hMake with ⟨rfl, _⟩
  exact hQ.throughout_ofBranches
    (throughout_branchesFrom hQ hNested hTest (.refl part) (by simp)
      hBranches)

end Tests

/-
  What holds of every part that a window of the query writes
  holds throughout.  The induction is on the windows: a nested
  selector is read in a window inside of the one before.
-/
theorem throughout_of_readPart
    {query : String}
    {Q : Selector E → Prop}
    (hQ : IsOfTests Q)
    (hTest :
      ∀ nested part before c d s, IsWindow query part → part.Reaches c →
        (∀ inner t, nested inner = .ok t → t.Throughout Q) →
          part? nested before c = .ok (some s) d → Q s)
    {part : Cursor}
    {s : Selector E}
    (hWindow : IsWindow query part)
    (h : readPart E part = .ok s) :
    s.Throughout Q := by
  induction part using Cursor.wellFounded_encloses.induction
    generalizing s with
  | _ part ih =>
      classical
      -- Nested selectors are asked for in arguments of the window alone.
      let nested : Cursor → Except Fault (Selector E) := fun inner =>
        if Opens part inner then readPart E inner
        else .error ⟨.emptySelector, inner.offset⟩
      have hSame : group nested part = group (readPart E) part :=
        group_congr fun inner hOpens => if_pos hOpens
      have hNested :
          ∀ inner t, nested inner = .ok t → t.Throughout Q := by
        intro inner t hRead
        by_cases hOpens : Opens part inner
        · have hInner : readPart E inner = .ok t := by
            simpa [nested, hOpens] using hRead
          exact ih inner hOpens.encloses (.argument hWindow hOpens) hInner
        · simp [nested, hOpens] at hRead
      rcases readPart_eq_ok_iff.1 h with ⟨d, hGroup⟩
      rw [value?_eq_some_iff, ← hSame] at hGroup
      refine throughout_group hQ hNested ?_ hGroup
      intro before c e t hReach hPart
      exact hTest nested part before c e t hWindow hReach hNested hPart

------------------------------------------------------------
-- Needles
------------------------------------------------------------

section Needles

variable {c d : Cursor} {s : Selector E}

/-
  What may stand behind a star or a name: a bar, and behind it
  a star or a name.
-/
theorem cases_of_namespace
    {bare whole : Selector E}
    {make : String → Selector E}
    (h :
      (do
        if ← chomp "|" then
          if ← chomp "*" then return whole
          else return make (← tagName)
        else
          return bare : Scan (Selector E)) c = .ok s d) :
    s = bare ∨ s = whole ∨ ∃ name, s = make name := by
  rcases bind_eq_ok_iff.1 h with ⟨bar, e, _, hBar⟩
  split at hBar
  · rcases bind_eq_ok_iff.1 hBar with ⟨star, f, _, hStar⟩
    split at hStar
    · exact .inr (.inl (pure_eq_ok_iff.1 hStar).1.symm)
    · rcases bind_eq_ok_iff.1 hStar with ⟨name, g, _, hMake⟩
      exact .inr (.inr ⟨name, (pure_eq_ok_iff.1 hMake).1.symm⟩)
  · exact .inl (pure_eq_ok_iff.1 hBar).1.symm

theorem cases_of_attributeTest
    (h : attributeTest E c = .ok s d) :
    (∃ name test, s = .attr name test) ∨ ∃ start, s = .attrStarting start := by
  rcases bind_eq_ok_iff.1 h with ⟨inner, e, _, hWithin⟩
  rcases within_eq_ok_iff.1 hWithin with ⟨f, hInner, _⟩
  rcases bind_eq_ok_iff.1 hInner with ⟨_, g, _, hSign⟩
  rcases bind_eq_ok_iff.1 hSign with ⟨caret, k, _, hTest⟩
  split at hTest
  · rcases bind_eq_ok_iff.1 hTest with ⟨start, l, _, hRest⟩
    rcases bind_eq_ok_iff.1 hRest with ⟨_, m, _, hRest⟩
    rcases bind_eq_ok_iff.1 hRest with ⟨_, o, _, hMake⟩
    exact .inr ⟨_, (pure_eq_ok_iff.1 hMake).1.symm⟩
  · rcases bind_eq_ok_iff.1 hTest with ⟨name, l, _, hRest⟩
    rcases bind_eq_ok_iff.1 hRest with ⟨_, m, _, hRest⟩
    rcases bind_eq_ok_iff.1 hRest with ⟨atEnd, o, _, hEnd⟩
    split at hEnd
    · exact .inl ⟨_, _, (pure_eq_ok_iff.1 hEnd).1.symm⟩
    · rcases bind_eq_ok_iff.1 hEnd with ⟨test, q, _, hMake⟩
      exact .inl ⟨_, _, (pure_eq_ok_iff.1 hMake).1.symm⟩

/- A needle is read by a pseudo-class that asks for one. -/
theorem eq_contains_of_meaning
    {nested : Cursor → Except Fault (Selector E)}
    {before : List (Selector E)}
    {name needle : String}
    {known : PseudoClass E}
    {source : TextSource}
    (hKnown : pseudoClass? E name = some known)
    (h : meaning nested before name known c =
      .ok (.containsText source needle) d) :
    known = .contains source ∧
      ∃ o text, textArgument name true c = .ok (o, text) d ∧
        needle = Scan.needle source text := by
  cases known with
  | plain t =>
      rcases pure_eq_ok_iff.1 h with ⟨rfl, _⟩
      have hTable := mem_pseudoClasses hKnown
      simp [pseudoClasses] at hTable
  | index test =>
      rcases bind_eq_ok_iff.1 h with ⟨n, e, _, hMake⟩
      cases (pure_eq_ok_iff.1 hMake).1
  | position kind =>
      rcases bind_eq_ok_iff.1 h with ⟨formula, e, _, hMake⟩
      cases (pure_eq_ok_iff.1 hMake).1
  | nested nesting =>
      rcases bind_eq_ok_iff.1 h with ⟨inner, e, _, hRest⟩
      rcases bind_eq_ok_iff.1 hRest with ⟨t, f, _, hMake⟩
      have hSame := (pure_eq_ok_iff.1 hMake).1
      cases nesting <;> cases hSame
  | contains source' =>
      rcases bind_eq_ok_iff.1 h with ⟨⟨o, text⟩, e, hText, hMake⟩
      rcases pure_eq_ok_iff.1 hMake with ⟨hSame, rfl⟩
      cases hSame
      exact ⟨rfl, o, text, hText, rfl⟩
  | matchesText source' =>
      rcases bind_eq_ok_iff.1 h with ⟨read, e, _, hRest⟩
      rcases bind_eq_ok_iff.1 hRest with ⟨p, f, _, hMake⟩
      cases (pure_eq_ok_iff.1 hMake).1

/- A part with a needle is read from an argument. -/
theorem textArgument_of_part?
    {nested : Cursor → Except Fault (Selector E)}
    {before : List (Selector E)}
    {source : TextSource}
    {needle : String}
    (h : part? nested before c =
      .ok (some (.containsText source needle)) d) :
    ∃ name e o text, c.Reaches e ∧
      pseudoClass? E name = some (.contains source) ∧
        textArgument name true e = .ok (o, text) d ∧
          needle = Scan.needle source text := by
  have hMarked :
      ∀ make : String → Selector E,
        (∀ name, make name ≠ .containsText source needle) →
          markedName make c ≠ .ok (.containsText source needle) d := by
    intro make hOther hRead
    rcases bind_eq_ok_iff.1 hRead with ⟨_, e, _, hName⟩
    rcases bind_eq_ok_iff.1 hName with ⟨name, f, _, hMake⟩
    exact hOther name (pure_eq_ok_iff.1 hMake).1
  unfold part? at h
  split at h
  · next start hStart =>
      rcases map_eq_ok_iff.1 h with ⟨t, hRead, hSame⟩
      cases hSame
      cases start with
      | hash => exact absurd hRead (hMarked _ (by simp))
      | dot => exact absurd hRead (hMarked _ (by simp))
      | bracket =>
          rcases cases_of_attributeTest hRead with
            ⟨_, _, hOther⟩ | ⟨_, hOther⟩
          · cases hOther
          · cases hOther
      | star =>
          rcases bind_eq_ok_iff.1 hRead with ⟨_, e, _, hAfter⟩
          rcases cases_of_namespace hAfter with
            hOther | hOther | ⟨name, hOther⟩
          · cases hOther
          · cases hOther
          · cases hOther
      | name =>
          rcases bind_eq_ok_iff.1 hRead with ⟨_, e, _, hAfter⟩
          rcases cases_of_namespace hAfter with
            hOther | hOther | ⟨name, hOther⟩
          · cases hOther
          · cases hOther
          · cases hOther
      | colon =>
          rcases bind_eq_ok_iff.1 hRead with ⟨start, e, hOffset, hRest⟩
          have hFirst := advances_offset.reaches (.refl c) hOffset
          rcases bind_eq_ok_iff.1 hRest with ⟨_, f, hAdvance, hRest⟩
          have hColon := advances_advance.reaches hFirst hAdvance
          rcases bind_eq_ok_iff.1 hRest with ⟨name, g, hName, hMeaning⟩
          have hReach :=
            (advances_pseudoClassName _).reaches hColon hName
          cases hKnown : pseudoClass? E name with
          | none => simp [hKnown, failAt] at hMeaning
          | some known =>
              simp only [hKnown] at hMeaning
              rcases eq_contains_of_meaning hKnown hMeaning with
                ⟨rfl, o, text, hText, hNeedle⟩
              exact ⟨name, g, o, text, hReach, hKnown, hText, hNeedle⟩
  · cases h

end Needles

end Scan

------------------------------------------------------------
-- Whole Queries
------------------------------------------------------------

namespace Selector

/- An argument that a pseudo-class of the query is given. -/
def IsArgument (query name : String) (inner : Cursor) : Prop :=
  ∃ part c d, IsWindow query part ∧ part.Reaches c ∧
    Scan.argument name c = .ok inner d

/-
  The needle is made of the text of an argument in the query.
  It is empty if the argument is a single backslash, and for
  normalised sources also if the text is blank.
-/
def IsFounded
    (E : Engine)
    (query : String)
    (source : TextSource)
    (needle : String) :
    Prop :=
  ∃ name inner text,
    pseudoClass? E name = some (.contains source) ∧
      IsArgument query name inner ∧
        Scan.writtenText? true inner = some text ∧
          needle = Scan.needle source text ∧
            (needle = "" ↔
              inner.rest = ['\\'] ∨
                source.isNormalized = true ∧ Text.AreBlanks text.toList)

/- Texts are empty only where it makes sense; needles are founded. -/
def HasFoundedTexts (query : String) : Selector E → Prop
| .attr _ test => test.IsMeaningful
| .matchesText _ pattern => pattern.source ≠ ""
| .containsText source needle => IsFounded E query source needle
| _ => True

theorem isOfTests_hasFoundedTexts (query : String) :
    IsOfTests (HasFoundedTexts (E := E) query) where
  combined s hCombined := by
    cases s with
    | compound | group | combine => trivial
    | _ => cases hCombined
  universal := trivial
  scope := trivial
  anchored c left part hPart := by
    cases part with
    | index => trivial
    | _ => exact hPart

variable {P : Selector E → Prop} {query : String}

theorem isFounded_of_textArgument
    {name : String}
    {source : TextSource}
    {part c d : Cursor}
    {o : Nat}
    {text : String}
    (hWindow : IsWindow query part)
    (hReach : part.Reaches c)
    (hKnown : pseudoClass? E name = some (.contains source))
    (h : Scan.textArgument name true c = .ok (o, text) d) :
    IsFounded E query source (Scan.needle source text) := by
  rcases Scan.textArgument_eq_ok_iff.1 h with
    ⟨inner, hInner, _, hText, hQuoted⟩
  refine ⟨name, inner, text, hKnown, ⟨part, c, d, hWindow, hReach, hInner⟩,
    hText, rfl, ?_⟩
  have hEmpty := Scan.writtenText?_eq_empty_iff hInner
  rw [hText, Option.some.injEq] at hEmpty
  rw [Scan.needle_eq_empty_iff]
  refine or_congr_left ⟨fun hNone => ?_, fun hSlash => hEmpty.2 (.inl hSlash)⟩
  rcases hEmpty.1 hNone with hSlash | ⟨hQuote, _⟩
  · exact hSlash
  · exact absurd hNone (hQuoted hQuote)

/- The shape of a part settles all its texts but the needles. -/
theorem IsPart.hasFoundedTexts
    {before : List (Selector E)}
    {part : Selector E}
    (h : IsPart P before part)
    (hNeedle : ∀ source needle, part = .containsText source needle →
      IsFounded E query source needle) :
    part.HasFoundedTexts query := by
  cases h with
  | attr _ hTest => exact hTest
  | matchesText hSource _ => exact hSource
  | containsText => exact hNeedle _ _ rfl
  | @nested _ nesting inner hInner => cases nesting <;> trivial
  | _ => trivial

theorem throughout_of_read
    {s : Selector E}
    (h : read E query = .ok s) :
    s.Throughout (HasFoundedTexts query) := by
  refine Scan.throughout_of_readPart (isOfTests_hasFoundedTexts query) ?_
    .whole (readPart_of_read h)
  intro nested part before c d s hWindow hReach hNested hPart
  have hShape := Scan.shape_part? hNested (Scan.value?_eq_some_iff.2 hPart)
  refine hShape.hasFoundedTexts ?_
  rintro source needle rfl
  rcases Scan.textArgument_of_part? hPart with
    ⟨name, e, o, text, hMore, hKnown, hText, rfl⟩
  exact isFounded_of_textArgument hWindow (hReach.trans hMore) hKnown hText

/-
  In a selector that is read no value, pattern or needle is
  empty without need, wherever it stands, with two exceptions:
  a needle is empty if its argument is a single backslash, and
  for normalised sources if its text is blank.  A text is
  refused as an empty argument exactly if its argument is blank
  or has nothing between its quotes, and a value exactly if it
  is empty and the operator asks for more.
-/
theorem texts_are_founded_or_refused (E : Engine) (query : String) :
    (∀ s, read E query = .ok s →
      ∀ u, Occurs u s →
        (∀ name test, .attr name test ∈ u.partsOf →
          test.IsMeaningful) ∧
          (∀ source pattern, .matchesText source pattern ∈ u.partsOf →
            pattern.source ≠ "") ∧
            ∀ source needle, .containsText source needle ∈ u.partsOf →
              IsFounded E query source needle) ∧
      (∀ (known : PseudoClass E) (resolve : Bool),
        known.resolves? = some resolve →
          ∀ nested before name c,
            Scan.RefusesEmpty (Scan.meaning nested before name known) c ↔
              (∃ whole d, Scan.parenthesized name c = .ok whole d ∧
                Text.AreBlanks whole.rest) ∨
                ∃ inner d, Scan.argument name c = .ok inner d ∧
                  inner.peek?.any isQuote = true ∧
                    ∃ e, Scan.quotedArgument resolve inner = .ok "" e) ∧
        ∀ name c,
          Scan.RefusesEmpty (Scan.operatorAndValue E name) c ↔
            ∃ op d,
              Scan.operator? AttributeOperator.all c = .ok (some op) d ∧
                op.allowsEmpty = false ∧
                  ∃ e, Scan.attributeValue op d.skipBlanks = .ok "" e := by
  refine ⟨?_, ?_, ?_⟩
  · intro s hRead u hOccurs
    have hTexts := throughout_of_read hRead u hOccurs
    refine ⟨?_, ?_, ?_⟩
    · intro name test hMem
      exact hTexts _ hMem
    · intro source pattern hMem
      exact hTexts _ hMem
    · intro source needle hMem
      exact hTexts _ hMem
  · intro known resolve hText nested before name c
    exact Scan.refusesEmpty_meaning_iff hText nested before
  · intro name c
    exact Scan.refusesEmpty_operatorAndValue_iff

/-
  A blank in quotes becomes an empty needle, here in an argument
  and in the candidate of the index behind it, while quotes with
  nothing in them are refused.
-/
theorem texts_are_founded_or_refused_blank :
    read .standard ":not(:contains(' '):eq(0))" =
        .ok (.not (.compound
          [.containsText .text "",
           .index .equalTo 0 (.containsText .text "")])) ∧
      IsFounded .standard ":not(:contains(' '):eq(0))" .text "" ∧
        Scan.RefusesEmpty
          (Scan.meaning (Scan.readPart .standard) [] "contains"
            (.contains .text))
          ⟨9, "('')".toList⟩ ∧
          Scan.RefusesEmpty (Scan.operatorAndValue .standard "a")
            ⟨2, "*=''".toList⟩ := by
  rcases texts_are_founded_or_refused .standard
    ":not(:contains(' '):eq(0))" with ⟨hFounded, hTexts, hValues⟩
  have hRead :
      read .standard ":not(:contains(' '):eq(0))" =
        .ok (.not (.compound
          [.containsText .text "",
           .index .equalTo 0 (.containsText .text "")])) := by
    with_unfolding_all rfl
  refine ⟨hRead, ?_, ?_, ?_⟩
  · have hCandidate :
        Occurs (.containsText .text "" : Selector .standard)
          (.not (.compound
            [.containsText .text "",
             .index .equalTo 0 (.containsText .text "")])) :=
      .within List.mem_cons_self (.within List.mem_cons_self (.here _))
    exact (hFounded _ hRead _ hCandidate).2.2 _ _ List.mem_cons_self
  · refine (hTexts _ _ rfl _ _ _ _).2 (.inr ?_)
    exact ⟨⟨10, ['\'', '\'']⟩, ⟨13, []⟩, by with_unfolding_all rfl, rfl,
      ⟨12, []⟩, by with_unfolding_all rfl⟩
  · refine (hValues _ _).2 ?_
    exact ⟨.compare .contains, ⟨4, ['\'', '\'']⟩, by with_unfolding_all rfl,
      rfl, ⟨6, []⟩, by with_unfolding_all rfl⟩

/- The empty text occurs in the text of every element. -/
theorem accepts_containsText_empty
    {ctx : Context}
    {n : Node}
    (hElement : ctx.tree.isElement n = true)
    (source : TextSource) :
    (.containsText source "" : Selector E).accepts ctx n = true := by
  have hOccurs : ∀ cs : List Char, Text.occursIn "".toList cs = true :=
    fun cs => Text.occursIn_iff_infix.2 List.nil_infix
  simp only [accepts, hElement, Bool.true_and, TextSource.contains, hOccurs,
    ite_self]

/-
  A blank in quotes, and an escaped blank without quotes, are
  accepted as needles, and match every element.
-/
theorem empty_needle_of_blank :
    read .standard ":contains(' ')" = .ok (.containsText .text "") ∧
      read .standard ":containsWholeText(\\ )" =
          .ok (.containsText .whole "") ∧
        ∀ (source : TextSource) (ctx : Context) (n : Node),
          ctx.tree.isElement n = true →
            (.containsText source "" : Selector .standard).accepts ctx n =
              true := by
  refine ⟨?_, ?_, ?_⟩
  · with_unfolding_all rfl
  · with_unfolding_all rfl
  · intro source ctx n hElement
    exact accepts_containsText_empty hElement source

end Selector

end TreeQuery
