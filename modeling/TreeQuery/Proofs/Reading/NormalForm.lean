import TreeQuery.Pattern.Standard
import TreeQuery.Proofs.Index
import TreeQuery.Proofs.Reading.Shape

/-
  The normal form of selectors that are read.

  Groups hold chains, chains hold compounds, and compounds
  hold tests that are no combinations themselves; a group or a
  compound of one member is that member.  An index repeats
  what stands before it as its candidate, and a combinator
  that is put on the compound is put on the candidate too.
  All of this holds in every selector that stands within one
  that is read, in arguments and candidates as well.

  Key definitions include:
    * `Selector.operands`
    * `Selector.Occurs`
    * `Selector.Repeats`
    * `Selector.IsNormal`

  Main statement:
    * `Selector.isNormal_of_read`
-/

namespace TreeQuery.Selector

variable {E : Engine}

------------------------------------------------------------
-- Selectors Within Selectors
------------------------------------------------------------

/- The parts of a compound; another selector is its only part. -/
def partsOf : Selector E → List (Selector E)
| .compound parts => parts
| s => [s]

/- The argument or the candidate of a part. -/
def held : Selector E → List (Selector E)
| .index _ _ candidate => [candidate]
| .not inner | .is inner | .has inner => [inner]
| _ => []

/-
  The selectors that stand directly in another one, each in
  its own right and not as a part of a compound.
-/
def operands : Selector E → List (Selector E)
| .group branches => branches
| .combine _ left right => [left, right]
| s => s.partsOf.flatMap held

/- The first selector stands somewhere in the second one, or is it. -/
inductive Occurs : Selector E → Selector E → Prop
| here (s : Selector E) : Occurs s s
| within {u t s : Selector E}
    (hOperand : t ∈ s.operands)
    (hRest : Occurs u t) : Occurs u s

------------------------------------------------------------
-- Normal Form
------------------------------------------------------------

def isGroup : Selector E → Bool
| .group _ => true
| _ => false

def isCombine : Selector E → Bool
| .combine _ _ _ => true
| _ => false

/- A star, or a test of the name. -/
def isType : Selector E → Bool
| .universal | .tag _ => true
| _ => false

/- The names that a part tests are in small letters. -/
def HasSmallNames : Selector E → Prop
| .tag test => test.IsSmall
| .attr name _ => IsSmallName name
| .attrStarting start => IsSmallName start
| _ => True

/-
  The candidate repeats the parts before its index: it is
  every element if there are none, else their compound.  Where
  a combinator has been put on the compound, it stands before
  the candidate once, and before the candidates of the indexes
  among the parts; the candidate repeats the parts as they
  were without it.
-/
def Repeats (candidate : Selector E) (before : List (Selector E)) : Prop :=
  candidate = Scan.indexCandidate before ∨
    ∃ c left written,
      before = written.map (anchorIndex c left) ∧
        candidate = .combine c left (Scan.indexCandidate written)

/- Every index among the parts has the candidate that is asked for. -/
def HaveCandidates
    (p : Selector E → List (Selector E) → Prop)
    (parts : List (Selector E)) : Prop :=
  ∀ before test k candidate behind,
    parts = before ++ .index test k candidate :: behind →
      p candidate before

/-
  Groups have two branches at least, none of them a group, and
  stand neither in a combinator nor among parts.  Compounds
  have two parts at least, none of them a combination, and
  only the first one tests the kind of element.  The right
  operand of a combinator is a compound or a single part; its
  indexes have been related to the left operand, or they are
  part of a candidate themselves.
-/
structure IsNormal (s : Selector E) : Prop where
  group : ∀ branches, s = .group branches →
    2 ≤ branches.length ∧ ∀ b ∈ branches, b.isGroup = false
  compound : ∀ parts, s = .compound parts →
    2 ≤ parts.length ∧
      (∀ part ∈ parts, part.isSimple = true) ∧
        ∀ part ∈ parts.tail, part.isType = false
  combine : ∀ c left right, s = .combine c left right →
    left.isGroup = false ∧ right.isGroup = false ∧
      right.isCombine = false ∧
        ∃ written,
          HaveCandidates (· = Scan.indexCandidate ·) written ∧
            (right.partsOf = written ∨
              right.partsOf = written.map (anchorIndex c left))
  candidates : HaveCandidates
    (fun candidate before =>
      candidate.isGroup = false ∧ candidate.Repeats before) s.partsOf
  names : ∀ part ∈ s.partsOf, part.HasSmallNames

------------------------------------------------------------
-- Parts of Compounds
------------------------------------------------------------

variable {P : Selector E → Prop} {parts : List (Selector E)}

/- A single part is no group, and no combinator. -/
theorem uncombined_of_isSimple
    {s : Selector E}
    (h : s.isSimple = true) :
    s.isGroup = false ∧ s.isCombine = false := by
  cases s with
  | group | combine => simp [isSimple] at h
  | _ => exact ⟨rfl, rfl⟩

/- Nor is a compound of such parts. -/
theorem uncombined_ofParts
    (hSimple : ∀ part ∈ parts, part.isSimple = true) :
    (ofParts parts).isGroup = false ∧ (ofParts parts).isCombine = false := by
  rcases parts with _ | ⟨part, _ | ⟨next, parts⟩⟩
  · exact ⟨rfl, rfl⟩
  · exact uncombined_of_isSimple (hSimple part (by simp))
  · exact ⟨rfl, rfl⟩

/- The parts of a compound are the ones it is made of. -/
theorem partsOf_ofParts
    (hSimple : ∀ part ∈ parts, part.isSimple = true) :
    (ofParts parts).partsOf = parts := by
  rcases parts with _ | ⟨part, _ | ⟨next, parts⟩⟩
  · rfl
  · have hPart := hSimple part (by simp)
    cases part with
    | compound parts => simp [isSimple] at hPart
    | _ => rfl
  · rfl

/- What stands in a compound is held by its parts. -/
theorem operands_ofParts
    (hSimple : ∀ part ∈ parts, part.isSimple = true) :
    (ofParts parts).operands = parts.flatMap held := by
  rcases parts with _ | ⟨part, _ | ⟨next, parts⟩⟩
  · rfl
  · have hPart := hSimple part (by simp)
    cases part with
    | compound | group | combine => simp [isSimple] at hPart
    | _ => rfl
  · rfl

theorem isSimple_anchorIndex
    (c : Combinator)
    (left part : Selector E) :
    (anchorIndex c left part).isSimple = part.isSimple := by
  cases part <;> rfl

theorem isType_anchorIndex
    (c : Combinator)
    (left part : Selector E) :
    (anchorIndex c left part).isType = part.isType := by
  cases part <;> rfl

theorem hasSmallNames_anchorIndex
    (c : Combinator)
    (left part : Selector E) :
    (anchorIndex c left part).HasSmallNames = part.HasSmallNames := by
  cases part <;> rfl

/- Only an index with its candidate is changed to one. -/
theorem anchorIndex_eq_index
    {c : Combinator}
    {left part candidate : Selector E}
    {test : IndexTest}
    {k : Nat}
    (h : anchorIndex c left part = .index test k candidate) :
    ∃ inner, part = .index test k inner ∧
      candidate = .combine c left inner := by
  cases part with
  | index test' k' inner =>
      cases h
      exact ⟨inner, rfl, rfl⟩
  | _ => cases h

/- A single part has no candidate if it is no index. -/
theorem haveCandidates_singleton
    {p : Selector E → List (Selector E) → Prop}
    {part : Selector E}
    (hOther : ∀ test k candidate, part ≠ .index test k candidate) :
    HaveCandidates p [part] := by
  intro before test k candidate behind hSplit
  have hMem : Selector.index test k candidate ∈ [part] := by
    rw [hSplit]
    simp
  exact absurd (List.mem_singleton.1 hMem).symm (hOther test k candidate)

/- Parts as they are read, before a combinator is put on them. -/
structure AreNormalParts (parts : List (Selector E)) : Prop where
  ne_nil : parts ≠ []
  simple : ∀ part ∈ parts, part.isSimple = true
  type : ∀ part ∈ parts.tail, part.isType = false
  names : ∀ part ∈ parts, part.HasSmallNames
  candidates : HaveCandidates (· = Scan.indexCandidate ·) parts

/- The parts before an index are its candidate, or every element is. -/
theorem exists_areNormalParts_indexCandidate
    {before : List (Selector E)}
    (h : before ≠ [] → AreNormalParts before) :
    ∃ written, AreNormalParts written ∧
      Scan.indexCandidate before = ofParts written := by
  rcases before with _ | ⟨part, parts⟩
  · refine ⟨[.universal], ⟨by simp, ?_, ?_, ?_, ?_⟩, rfl⟩
    · simp [isSimple]
    · simp
    · simp [HasSmallNames]
    · exact haveCandidates_singleton (by simp)
  · exact ⟨part :: parts, h (by simp), rfl⟩

------------------------------------------------------------
-- Parts That Are Read
------------------------------------------------------------

/- Each of the parts is read after those before it. -/
theorem ArePartsAfter.split
    {before xs ys : List (Selector E)}
    {part : Selector E}
    (h : ArePartsAfter P before (xs ++ part :: ys)) :
    ArePartsAfter P before xs ∧ IsPart P (before ++ xs) part := by
  induction xs generalizing before with
  | nil =>
      cases h with
      | cons hPart hRest => exact ⟨.nil, by simpa using hPart⟩
  | cons x xs ih =>
      cases h with
      | cons hPart hRest =>
          rcases ih hRest with ⟨hInit, hLast⟩
          exact ⟨.cons hPart hInit, by simpa using hLast⟩

theorem IsPart.hasSmallNames
    {before : List (Selector E)}
    {part : Selector E}
    (h : IsPart P before part) :
    part.HasSmallNames := by
  cases h with
  | tag hTest => exact hTest
  | attr hName _ => exact hName
  | attrStarting hStart => exact hStart
  | @nested _ nesting inner hInner => cases nesting <;> trivial
  | _ => trivial

theorem IsPart.eq_nil_of_isType
    {before : List (Selector E)}
    {part : Selector E}
    (h : IsPart P before part)
    (hType : part.isType = true) :
    before = [] := by
  cases h with
  | universal => rfl
  | tag => rfl
  | @nested _ nesting inner hInner => cases nesting <;> cases hType
  | _ => cases hType

theorem IsPart.candidate_eq
    {before : List (Selector E)}
    {test : IndexTest}
    {k : Nat}
    {candidate : Selector E}
    (h : IsPart P before (.index test k candidate)) :
    candidate = Scan.indexCandidate before := by
  generalize hIndex : Selector.index test k candidate = part at h
  cases h with
  | index =>
      cases hIndex
      rfl
  | @nested _ nesting inner hInner => cases nesting <;> cases hIndex
  | _ => cases hIndex

/- A part holds its argument, or what stands before it. -/
theorem IsPart.of_mem_held
    {before : List (Selector E)}
    {part s : Selector E}
    (h : IsPart P before part)
    (hMem : s ∈ part.held) :
    P s ∨ s = Scan.indexCandidate before := by
  cases h with
  | index => exact .inr (List.mem_singleton.1 hMem)
  | @nested _ nesting inner hInner =>
      have hSame : s = inner := by
        cases nesting <;> exact List.mem_singleton.1 hMem
      exact .inl (hSame ▸ hInner)
  | _ => cases hMem

/- The parts of a compound that is read. -/
theorem ArePartsAfter.areNormalParts
    (hSome : parts ≠ [])
    (h : ArePartsAfter P [] parts) :
    AreNormalParts parts := by
  have hPart :
      ∀ {xs part ys}, parts = xs ++ part :: ys → IsPart P xs part := by
    rintro xs part ys rfl
    simpa using h.split.2
  refine ⟨hSome, h.isSimple, ?_, ?_, ?_⟩
  · intro part hMem
    rcases List.exists_cons_of_ne_nil hSome with ⟨first, rest, rfl⟩
    rcases List.append_of_mem hMem with ⟨xs, ys, hSplit⟩
    rw [List.tail_cons] at hSplit
    subst hSplit
    have hLater : IsPart P (first :: xs) part := hPart rfl
    rw [Bool.eq_false_iff]
    intro hType
    cases hLater.eq_nil_of_isType hType
  · intro part hMem
    rcases List.append_of_mem hMem with ⟨xs, ys, hSplit⟩
    exact (hPart hSplit).hasSmallNames
  · intro before test k candidate behind hSplit
    exact (hPart hSplit).candidate_eq

/- The candidate of an index that is read is a compound itself. -/
theorem ArePartsAfter.exists_areNormalParts_candidate
    (h : ArePartsAfter P [] parts)
    {before behind : List (Selector E)}
    {test : IndexTest}
    {k : Nat}
    {candidate : Selector E}
    (hSplit : parts = before ++ .index test k candidate :: behind) :
    ∃ written, AreNormalParts written ∧ candidate = ofParts written := by
  subst hSplit
  rcases h.split with ⟨hBefore, hIndex⟩
  rw [List.nil_append] at hIndex
  rw [hIndex.candidate_eq]
  exact exists_areNormalParts_indexCandidate hBefore.areNormalParts

------------------------------------------------------------
-- Normal Compounds
------------------------------------------------------------

theorem isNormal_ofParts
    (hSome : parts ≠ [])
    (hSimple : ∀ part ∈ parts, part.isSimple = true)
    (hType : ∀ part ∈ parts.tail, part.isType = false)
    (hNames : ∀ part ∈ parts, part.HasSmallNames)
    (hCandidates : HaveCandidates
      (fun candidate before =>
        candidate.isGroup = false ∧ candidate.Repeats before) parts) :
    (ofParts parts).IsNormal := by
  have hParts := partsOf_ofParts hSimple
  constructor
  · intro branches hGroup
    have hOther := (uncombined_ofParts hSimple).1
    rw [hGroup] at hOther
    cases hOther
  · intro parts' hCompound
    rw [hCompound, partsOf] at hParts
    subst hParts
    refine ⟨?_, hSimple, hType⟩
    rcases parts' with _ | ⟨part, _ | ⟨next, rest⟩⟩
    · exact absurd rfl hSome
    · have hPart := hSimple part (by simp)
      rw [ofParts] at hCompound
      rw [hCompound] at hPart
      cases hPart
    · simp
  · intro c left right hCombine
    have hOther := (uncombined_ofParts hSimple).2
    rw [hCombine] at hOther
    cases hOther
  · rw [hParts]
    exact hCandidates
  · rw [hParts]
    exact hNames

namespace AreNormalParts

variable (h : AreNormalParts parts) (c : Combinator) (left : Selector E)

include h

/- The candidate of an index repeats the parts before it, and is no group. -/
theorem candidate_of_index
    {before behind : List (Selector E)}
    {test : IndexTest}
    {k : Nat}
    {candidate : Selector E}
    (hSplit : parts = before ++ .index test k candidate :: behind) :
    candidate = Scan.indexCandidate before ∧
      candidate.isGroup = false := by
  have hSame := h.candidates before test k candidate behind hSplit
  refine ⟨hSame, ?_⟩
  rw [hSame, Scan.indexCandidate]
  split
  · rfl
  · have hBefore : ∀ part ∈ before, part.isSimple = true := by
      intro part hMem
      refine h.simple part ?_
      rw [hSplit]
      exact List.mem_append_left _ hMem
    exact (uncombined_ofParts hBefore).1

theorem isNormal : (ofParts parts).IsNormal := by
  refine isNormal_ofParts h.ne_nil h.simple h.type h.names ?_
  intro before test k candidate behind hSplit
  rcases h.candidate_of_index hSplit with ⟨hSame, hGroup⟩
  exact ⟨hGroup, .inl hSame⟩

theorem isSimple_anchored :
    ∀ part ∈ parts.map (anchorIndex c left), part.isSimple = true := by
  intro part hMem
  rcases List.mem_map.1 hMem with ⟨written, hWritten, rfl⟩
  rw [isSimple_anchorIndex]
  exact h.simple written hWritten

/- So are the parts after a combinator has been put on them. -/
theorem isNormal_anchored :
    (ofParts (parts.map (anchorIndex c left))).IsNormal := by
  refine isNormal_ofParts (by simpa using h.ne_nil)
    (h.isSimple_anchored c left) ?_ ?_ ?_
  · intro part hMem
    rw [← List.map_tail] at hMem
    rcases List.mem_map.1 hMem with ⟨written, hWritten, rfl⟩
    rw [isType_anchorIndex]
    exact h.type written hWritten
  · intro part hMem
    rcases List.mem_map.1 hMem with ⟨written, hWritten, rfl⟩
    rw [hasSmallNames_anchorIndex]
    exact h.names written hWritten
  · intro before test k candidate behind hSplit
    rcases List.map_eq_append_iff.1 hSplit with
      ⟨written, later, hParts, rfl, hLater⟩
    rcases List.map_eq_cons_iff.1 hLater with
      ⟨part, rest, rfl, hIndex, _⟩
    rcases anchorIndex_eq_index hIndex with ⟨inner, rfl, rfl⟩
    rcases h.candidate_of_index hParts with ⟨rfl, _⟩
    exact ⟨rfl, .inr ⟨c, left, written, rfl, rfl⟩⟩

/- A combinator before a compound is normal, whether put on it or not. -/
theorem isNormal_combine
    (hLeft : left.isGroup = false) :
    (Selector.combine c left (ofParts parts)).IsNormal ∧
      (Selector.combine c left
        (ofParts (parts.map (anchorIndex c left)))).IsNormal := by
  have hBoth :
      ∀ {anchored},
        (∀ part ∈ anchored, part.isSimple = true) →
          (anchored = parts ∨ anchored = parts.map (anchorIndex c left)) →
            (Selector.combine c left (ofParts anchored)).IsNormal := by
    intro anchored hSimple hParts
    constructor
    · intro branches hGroup
      cases hGroup
    · intro parts' hCompound
      cases hCompound
    · intro c' left' right' hCombine
      cases hCombine
      rcases uncombined_ofParts hSimple with ⟨hGroup, hCombine⟩
      refine ⟨hLeft, hGroup, hCombine, parts, h.candidates, ?_⟩
      rw [partsOf_ofParts hSimple]
      exact hParts
    · exact haveCandidates_singleton (by simp)
    · intro part hMem
      rw [List.mem_singleton.1 hMem]
      trivial
  exact ⟨hBoth h.simple (.inl rfl),
    hBoth (h.isSimple_anchored c left) (.inr rfl)⟩

end AreNormalParts

------------------------------------------------------------
-- Selectors That Are Read
------------------------------------------------------------

/- All selectors within a selector are normal, and it is itself. -/
def IsNormalThroughout (s : Selector E) : Prop :=
  ∀ u, Occurs u s → u.IsNormal

theorem IsChain.isGroup_eq
    {s : Selector E}
    (h : IsChain P s) :
    s.isGroup = false := by
  cases s with
  | group branches => exact absurd rfl (h.ne_group branches)
  | _ => rfl

theorem isNormal_group
    {branches : List (Selector E)}
    (hSeveral : 2 ≤ branches.length)
    (hChains : ∀ b ∈ branches, b.isGroup = false) :
    (Selector.group branches).IsNormal := by
  constructor
  · intro branches' hSame
    cases hSame
    exact ⟨hSeveral, hChains⟩
  · intro parts hSame
    cases hSame
  · intro c left right hSame
    cases hSame
  · exact haveCandidates_singleton (by simp)
  · intro part hMem
    rw [List.mem_singleton.1 hMem]
    trivial

theorem isNormalThroughout_of_operands
    {s : Selector E}
    (hHere : s.IsNormal)
    (hWithin : ∀ t ∈ s.operands, t.IsNormalThroughout) :
    s.IsNormalThroughout := by
  intro u hOccurs
  cases hOccurs with
  | here => exact hHere
  | within hOperand hRest => exact hWithin _ hOperand u hRest

section Throughout

variable (hInner : ∀ s, P s → s.IsNormalThroughout)

include hInner

/-
  The induction is on the parts before an index: they are its
  candidate, and hold candidates of fewer parts.
-/
theorem ArePartsAfter.isNormalThroughout_held
    (h : ArePartsAfter P [] parts) :
    ∀ part ∈ parts, ∀ s ∈ part.held, s.IsNormalThroughout := by
  induction hLength : parts.length using Nat.strongRecOn
    generalizing parts with
  | ind length ih =>
      intro part hMem s hHeld
      rcases List.append_of_mem hMem with ⟨before, behind, rfl⟩
      rcases h.split with ⟨hBefore, hPart⟩
      rw [List.nil_append] at hPart
      rcases hPart.of_mem_held hHeld with hArgument | rfl
      · exact hInner s hArgument
      · have hShorter : before.length < length := by
          rw [← hLength, List.length_append, List.length_cons]
          omega
        rcases exists_areNormalParts_indexCandidate
          fun hSome => hBefore.areNormalParts hSome with
            ⟨written, hWritten, hCandidate⟩
        refine isNormalThroughout_of_operands ?_ ?_
        · rw [hCandidate]
          exact hWritten.isNormal
        · intro t hOperand
          rcases before with _ | ⟨first, rest⟩
          · cases hOperand
          · have hOperands := operands_ofParts hBefore.isSimple
            have hOperand' : t ∈ (ofParts (first :: rest)).operands :=
              hOperand
            rw [hOperands, List.mem_flatMap] at hOperand'
            rcases hOperand' with ⟨q, hq, ht⟩
            exact ih _ hShorter hBefore rfl q hq t ht

theorem IsCompound.isNormalThroughout
    {s : Selector E}
    (h : IsCompound P s) :
    s.IsNormalThroughout := by
  rcases h with ⟨parts, hSome, hParts, rfl⟩
  refine isNormalThroughout_of_operands
    (hParts.areNormalParts hSome).isNormal ?_
  intro t hOperand
  rw [operands_ofParts hParts.isSimple, List.mem_flatMap] at hOperand
  rcases hOperand with ⟨part, hPart, ht⟩
  exact hParts.isNormalThroughout_held hInner part hPart t ht

/- Relating a compound puts its left operand before its candidates. -/
theorem IsCompound.isNormalThroughout_relate
    {left right : Selector E}
    (c : Combinator)
    (h : IsCompound P right)
    (hLeft : left.IsNormalThroughout)
    (hChain : left.isGroup = false) :
    (left.relate c right).IsNormalThroughout := by
  rcases h with ⟨parts, hSome, hParts, rfl⟩
  have hNormal := hParts.areNormalParts hSome
  rw [relate, anchorIndexes_ofParts hParts.isSimple]
  refine isNormalThroughout_of_operands
    (hNormal.isNormal_combine c left hChain).2 ?_
  intro t hOperand
  rcases List.mem_pair.1 hOperand with rfl | rfl
  · exact hLeft
  · refine isNormalThroughout_of_operands
      (hNormal.isNormal_anchored c left) ?_
    intro t hOperand
    rw [operands_ofParts (hNormal.isSimple_anchored c left),
      List.mem_flatMap] at hOperand
    rcases hOperand with ⟨_, hAnchored, hHeld⟩
    rcases List.mem_map.1 hAnchored with ⟨part, hPart, rfl⟩
    have hWritten := hParts.isNormalThroughout_held hInner part hPart
    cases part with
    | index test k candidate =>
        rw [List.mem_singleton.1 hHeld]
        rcases List.append_of_mem hPart with ⟨before, behind, hSplit⟩
        rcases hParts.exists_areNormalParts_candidate hSplit with
          ⟨written, hBefore, rfl⟩
        refine isNormalThroughout_of_operands
          (hBefore.isNormal_combine c left hChain).1 ?_
        intro u hOperand
        rcases List.mem_pair.1 hOperand with rfl | rfl
        · exact hLeft
        · exact hWritten _ List.mem_cons_self
    | _ => exact hWritten t hHeld

theorem IsChain.isNormalThroughout
    {s : Selector E}
    (h : IsChain P s) :
    s.IsNormalThroughout := by
  induction h with
  | compound hCompound => exact hCompound.isNormalThroughout hInner
  | related hLeft hRight ih =>
      exact hRight.isNormalThroughout_relate hInner _ ih hLeft.isGroup_eq

theorem IsGroup.isNormalThroughout
    {s : Selector E}
    (h : IsGroup P s) :
    s.IsNormalThroughout := by
  rcases h with ⟨branches, hSome, hChains, rfl⟩
  have hBranches : ∀ b ∈ branches, b.IsNormalThroughout :=
    fun b hMem => (hChains b hMem).isNormalThroughout hInner
  rcases branches with _ | ⟨b, _ | ⟨next, rest⟩⟩
  · exact absurd rfl hSome
  · exact hBranches b (by simp)
  · exact isNormalThroughout_of_operands
      (isNormal_group (by simp) fun b hMem => (hChains b hMem).isGroup_eq)
      hBranches

end Throughout

/-
  Every selector that stands within a selector that is read,
  in arguments and candidates too, is in normal form.
-/
theorem isNormal_of_read
    {query : String}
    {s : Selector E}
    (h : read E query = .ok s)
    {u : Selector E}
    (hOccurs : Occurs u s) :
    u.IsNormal := by
  have hWritten : s.IsWritten := ⟨_, readPart_of_read h⟩
  exact hWritten.induction
    (fun _ hGroup => hGroup.isNormalThroughout fun _ hInner => hInner.2)
    u hOccurs

/-
  The candidate of a second index holds the first one, with
  the combinator before both.
-/
theorem isNormal_of_read_second_candidate :
    read .standard ":not(a + b:eq(0):gt(1))" =
        .ok (.not (relate .adjacent (.tag (.name "a"))
          (.compound
            [.tag (.name "b"), .index .equalTo 0 (.tag (.name "b")),
             .index .greaterThan 1
              (.compound
                [.tag (.name "b"),
                 .index .equalTo 0 (.tag (.name "b"))])]))) ∧
      (.combine .adjacent (.tag (.name "a"))
        (.compound
          [.tag (.name "b"),
           .index .equalTo 0
             (.tag (.name "b"))]) : Selector .standard).IsNormal := by
  have hRead :
      read .standard ":not(a + b:eq(0):gt(1))" =
        .ok (.not (relate .adjacent (.tag (.name "a"))
          (.compound
            [.tag (.name "b"), .index .equalTo 0 (.tag (.name "b")),
             .index .greaterThan 1
              (.compound
                [.tag (.name "b"),
                 .index .equalTo 0 (.tag (.name "b"))])]))) := by
    with_unfolding_all rfl
  refine ⟨hRead, isNormal_of_read hRead ?_⟩
  -- The argument, its right operand, and what the second index holds.
  refine .within (t := relate _ _ _) List.mem_cons_self ?_
  refine .within (List.mem_cons_of_mem _ List.mem_cons_self) ?_
  exact .within (List.mem_cons_of_mem _ List.mem_cons_self) (.here _)

end TreeQuery.Selector
