import TreeQuery.Pattern.Standard
import TreeQuery.Proofs.Reading.Append
import TreeQuery.Proofs.Tree.Siblings
import TreeQuery.Selector.Matching

/-
  What an index behind a selector counts.

  An index behind a selector is put on what stands before it
  in the last compound, and a combinator is then put on both.
  The earlier indexes of the compound are related to the left
  operand where they stand, but not where the later index
  repeats them.  Below a parent or an ancestor this makes no
  difference, since siblings have these in common; behind a
  sibling it does.

  Key definitions include:
    * `Selector.counted`
    * `Selector.isSteady`
    * `Selector.IsIndexed`

  Main statements:
    * `Selector.accepts_append_index`
    * `Selector.accepts_counted_of_isSteady`
    * `Selector.appended_index_counts_matches_iff`
-/

namespace TreeQuery.Selector

variable {E : Engine}

------------------------------------------------------------
-- Compounds
------------------------------------------------------------

variable {ctx : Context} {n : Node}

theorem acceptsAll_eq_all
    (parts : List (Selector E))
    (ctx : Context)
    (n : Node) :
    acceptsAll parts ctx n = parts.all (·.accepts ctx n) := by
  induction parts with
  | nil => simp [acceptsAll]
  | cons part parts ih => simp [acceptsAll, ih]

/- On an element a compound asks for its parts and nothing else. -/
theorem accepts_ofParts
    (hElement : ctx.tree.isElement n = true)
    (parts : List (Selector E)) :
    (ofParts parts).accepts ctx n = parts.all (·.accepts ctx n) := by
  rcases parts with _ | ⟨part, _ | ⟨next, parts⟩⟩
  · simp [ofParts, accepts, acceptsAll, hElement]
  · simp [ofParts]
  · simp [ofParts, accepts, acceptsAll_eq_all, hElement]

/- Every part of a compound is anchored for itself. -/
theorem anchorIndexes_ofParts
    {parts : List (Selector E)}
    (hSimple : ∀ part ∈ parts, part.isSimple = true)
    (c : Combinator)
    (left : Selector E) :
    anchorIndexes c left (ofParts parts) =
      ofParts (parts.map (anchorIndex c left)) := by
  rcases parts with _ | ⟨part, _ | ⟨next, parts⟩⟩
  · rfl
  · have hPart := hSimple part (by simp)
    cases part with
    | compound parts => simp [isSimple] at hPart
    | _ => rfl
  · rfl

/- A related compound asks for its anchored parts and for an origin. -/
theorem accepts_relate
    (hElement : ctx.tree.isElement n = true)
    {parts : List (Selector E)}
    (hSimple : ∀ part ∈ parts, part.isSimple = true)
    (c : Combinator)
    (left : Selector E) :
    (relate c left (ofParts parts)).accepts ctx n =
      (n != ctx.scope
        && parts.all (fun part => (anchorIndex c left part).accepts ctx n)
        && (c.origins ctx n).any (left.accepts ctx)) := by
  rw [relate, anchorIndexes_ofParts hSimple, accepts, hElement,
    Bool.true_and, accepts_ofParts hElement, List.all_map]
  rfl

------------------------------------------------------------
-- Counted Selectors
------------------------------------------------------------

/- An index that counts without regard to a combinator. -/
def looseIndex : Selector E → Selector E
| .index test n (.combine _ _ candidate) => .index test n candidate
| s => s

/- All indexes of a compound count so. -/
def looseIndexes : Selector E → Selector E
| .compound parts => .compound (parts.map looseIndex)
| s => looseIndex s

/-
  What an index behind the selector counts.  The indexes of
  the last compound do not regard its combinator.
-/
def counted : Selector E → Selector E
| .combine c left right => .combine c left (looseIndexes right)
| s => s

/- The selector is an index. -/
def isIndex : Selector E → Bool
| .index _ _ _ => true
| _ => false

/- An index stands among the parts of a compound. -/
def hasIndex : Selector E → Bool
| .compound parts => parts.any isIndex
| s => s.isIndex

/-
  No index stands behind a sibling: it is then the same
  whether indexes regard the last combinator.
-/
def isSteady : Selector E → Bool
| .combine .adjacent _ right | .combine .sibling _ right =>
    !right.hasIndex
| _ => true

/- Anchoring adds what counting loosely leaves out. -/
theorem looseIndex_anchorIndex
    (c : Combinator)
    (left s : Selector E) :
    looseIndex (anchorIndex c left s) = s := by
  cases s <;> rfl

theorem looseIndexes_anchorIndexes
    (c : Combinator)
    (left right : Selector E) :
    looseIndexes (anchorIndexes c left right) = right := by
  cases right with
  | compound parts =>
      have hParts :
          parts.map (looseIndex ∘ anchorIndex c left) = parts := by
        refine (List.map_congr_left fun part _ => ?_).trans
          (List.map_id parts)
        exact looseIndex_anchorIndex c left part
      rw [anchorIndexes, looseIndexes, List.map_map, hParts]
  | _ => rfl

/- Without an index there is nothing to leave out. -/
theorem looseIndex_of_not_isIndex
    {s : Selector E}
    (h : s.isIndex = false) :
    looseIndex s = s := by
  cases s with
  | index test n candidate => simp [isIndex] at h
  | _ => rfl

theorem looseIndexes_of_not_hasIndex
    {s : Selector E}
    (h : s.hasIndex = false) :
    looseIndexes s = s := by
  cases s with
  | compound parts =>
      have hParts : parts.map looseIndex = parts := by
        refine (List.map_congr_left fun part hMem => ?_).trans
          (List.map_id parts)
        have hNone : part.isIndex = false := by
          simpa using List.any_eq_false.1 h part hMem
        exact looseIndex_of_not_isIndex hNone
      rw [looseIndexes, hParts]
  | index test n candidate => simp [hasIndex, isIndex] at h
  | _ => rfl

/- What is counted behind a related compound is its own relation. -/
theorem counted_relate
    (c : Combinator)
    (left right : Selector E) :
    (relate c left right).counted = .combine c left right := by
  rw [relate, counted, looseIndexes_anchorIndexes]

theorem counted_ofParts
    {parts : List (Selector E)}
    (hSimple : ∀ part ∈ parts, part.isSimple = true) :
    (ofParts parts).counted = ofParts parts := by
  rcases parts with _ | ⟨part, _ | ⟨next, parts⟩⟩
  · rfl
  · have hPart := hSimple part (by simp)
    cases part with
    | combine c left right => simp [isSimple] at hPart
    | _ => rfl
  · rfl

------------------------------------------------------------
-- Appended Indexes
------------------------------------------------------------

/-
  A selector with an index behind it matches what the selector
  matches and what has an index, as asked, among the nodes
  that are counted.
-/
theorem accepts_append_index
    (hElement : ctx.tree.isElement n = true)
    {parts : List (Selector E)}
    (hSimple : ∀ part ∈ parts, part.isSimple = true)
    (before : Option (Combinator × Selector E))
    (test : IndexTest)
    (k : Nat) :
    (after before
        (ofParts (parts ++ [.index test k (ofParts parts)]))).accepts ctx n =
      ((after before (ofParts parts)).accepts ctx n
        && (Selector.index test k
            (after before (ofParts parts)).counted).accepts ctx n) := by
  have hMore :
      ∀ part ∈ parts ++ [.index test k (ofParts parts)],
        part.isSimple = true := by
    intro part hMem
    rcases List.mem_append.1 hMem with hOld | hNew
    · exact hSimple part hOld
    · rw [List.mem_singleton.1 hNew]
      rfl
  cases before with
  | none =>
      rw [after, after, counted_ofParts hSimple, accepts_ofParts hElement,
        accepts_ofParts hElement, List.all_append, List.all_cons,
        List.all_nil, Bool.and_true]
  | some relation =>
      rcases relation with ⟨c, left⟩
      rw [after, after, counted_relate, accepts_relate hElement hMore,
        accepts_relate hElement hSimple, List.all_append, List.all_cons,
        List.all_nil, Bool.and_true, anchorIndex]
      ac_rfl

/- An index is matched by what is counted, by the number before it. -/
theorem accepts_index_iff
    (hElement : ctx.tree.isElement n = true)
    (test : IndexTest)
    (k : Nat)
    (candidate : Selector E) :
    (Selector.index test k candidate).accepts ctx n = true ↔
      n ≠ ctx.scope ∧
        candidate.accepts ctx n = true ∧
          test.holds
            ((ctx.tree.precedingElements n).countP
              (candidate.accepts ctx)) k = true := by
  rw [accepts, hElement, Bool.true_and, Context.candidateIndex?]
  by_cases hCandidate :
      (n != ctx.scope && candidate.accepts ctx n) = true
  · rw [if_pos hCandidate]
    simp only [Bool.and_eq_true, bne_iff_ne] at hCandidate
    simp [hCandidate]
  · rw [if_neg hCandidate]
    simp only [Bool.and_eq_true, bne_iff_ne, not_and] at hCandidate
    simp only [Option.any_none, Bool.false_eq_true, false_iff]
    intro hAll
    exact hCandidate hAll.1 hAll.2.1

------------------------------------------------------------
-- Steady Selectors
------------------------------------------------------------

/- Siblings have their parent and their ancestors in common. -/
theorem origins_of_mem_precedingElements
    {c : Combinator}
    (hUp : c = .descendant ∨ c = .child)
    {m : Node}
    (hMem : m ∈ ctx.tree.precedingElements n) :
    c.origins ctx m = c.origins ctx n := by
  rcases hUp with rfl | rfl
  · rw [Combinator.origins, Combinator.origins,
      Tree.ancestors_of_mem_precedingElements hMem]
  · rcases Tree.mem_precedingElements hMem with
      ⟨_, i, steps, rfl, hParent⟩
    rw [Combinator.origins, Combinator.origins, hParent]
    rfl

theorem accepts_combine
    (hElement : ctx.tree.isElement n = true)
    (hOther : n ≠ ctx.scope)
    {c : Combinator}
    {left : Selector E}
    (hOrigin : (c.origins ctx n).any (left.accepts ctx) = true)
    (right : Selector E) :
    (Selector.combine c left right).accepts ctx n =
      right.accepts ctx n := by
  simp [accepts, hElement, hOther, hOrigin]

/- An index counts alike with and without an origin above. -/
theorem accepts_anchorIndex
    (hElement : ctx.tree.isElement n = true)
    (hBelow : n.IsBelow ctx.scope)
    (hOther : n ≠ ctx.scope)
    {c : Combinator}
    (hUp : c = .descendant ∨ c = .child)
    {left : Selector E}
    (hOrigin : (c.origins ctx n).any (left.accepts ctx) = true)
    (part : Selector E) :
    (anchorIndex c left part).accepts ctx n = part.accepts ctx n := by
  cases part with
  | index test k candidate =>
      have hCount :
          (ctx.tree.precedingElements n).countP
              ((Selector.combine c left candidate).accepts ctx) =
            (ctx.tree.precedingElements n).countP
              (candidate.accepts ctx) := by
        apply List.countP_congr
        intro m hMem
        have hElement' := (Tree.mem_precedingElements hMem).1
        have hOther' :=
          (Tree.isBelow_of_mem_precedingElements hMem hBelow).2
        have hOrigin' :
            (c.origins ctx m).any (left.accepts ctx) = true := by
          rw [origins_of_mem_precedingElements hUp hMem]
          exact hOrigin
        rw [accepts_combine hElement' hOther' hOrigin']
      rw [anchorIndex, Bool.eq_iff_iff, accepts_index_iff hElement,
        accepts_index_iff hElement,
        accepts_combine hElement hOther hOrigin, hCount]
  | _ => rfl

/- What is counted behind a steady selector are its matches. -/
theorem accepts_counted_of_isSteady
    (hElement : ctx.tree.isElement n = true)
    (hBelow : n.IsBelow ctx.scope)
    (hOther : n ≠ ctx.scope)
    {parts : List (Selector E)}
    (hSimple : ∀ part ∈ parts, part.isSimple = true)
    {before : Option (Combinator × Selector E)}
    (hSteady : (after before (ofParts parts)).isSteady = true) :
    (after before (ofParts parts)).counted.accepts ctx n =
      (after before (ofParts parts)).accepts ctx n := by
  have hAbove :
      ∀ c left, c = .descendant ∨ c = .child →
        (relate c left (ofParts parts)).counted.accepts ctx n =
          (relate c left (ofParts parts)).accepts ctx n := by
    intro c left hUp
    rw [counted_relate, accepts_relate hElement hSimple]
    by_cases hOrigin : (c.origins ctx n).any (left.accepts ctx) = true
    · have hParts :
          ∀ part,
            (anchorIndex c left part).accepts ctx n =
              part.accepts ctx n := by
        intro part
        exact accepts_anchorIndex hElement hBelow hOther hUp hOrigin part
      rw [accepts_combine hElement hOther hOrigin,
        accepts_ofParts hElement, hOrigin, List.all_congr rfl hParts]
      simp [hOther]
    · simp [accepts, hOrigin]
  have hBeside :
      ∀ c left,
        (anchorIndexes c left (ofParts parts)).hasIndex = false →
          (relate c left (ofParts parts)).counted =
            relate c left (ofParts parts) := by
    intro c left hNone
    rw [relate, counted, looseIndexes_of_not_hasIndex hNone]
  cases before with
  | none => rw [after, counted_ofParts hSimple]
  | some relation =>
      rcases relation with ⟨c, left⟩
      rw [after] at hSteady ⊢
      cases c with
      | descendant => exact hAbove .descendant left (.inl rfl)
      | child => exact hAbove .child left (.inr rfl)
      | adjacent =>
          rw [hBeside .adjacent left (by simpa [relate, isSteady] using hSteady)]
      | sibling =>
          rw [hBeside .sibling left (by simpa [relate, isSteady] using hSteady)]

------------------------------------------------------------
-- Queries with an Index Behind
------------------------------------------------------------

/-
  The node is a match other than the scope, and the number of
  matches among the elements before it compares as asked.
-/
def IsIndexed
    (s : Selector E)
    (test : IndexTest)
    (k : Nat)
    (ctx : Context)
    (n : Node) : Prop :=
  n ≠ ctx.scope ∧
    s.accepts ctx n = true ∧
      test.holds
        ((ctx.tree.precedingElements n).countP (s.accepts ctx)) k = true

theorem isIndexed_counted_of_isSteady
    (hBelow : n = ctx.scope ∨ n.IsBelow ctx.scope)
    (hElement : ctx.tree.isElement n = true)
    {parts : List (Selector E)}
    (hSimple : ∀ part ∈ parts, part.isSimple = true)
    {before : Option (Combinator × Selector E)}
    (hSteady : (after before (ofParts parts)).isSteady = true)
    (test : IndexTest)
    (k : Nat) :
    (after before (ofParts parts)).counted.IsIndexed test k ctx n ↔
      (after before (ofParts parts)).IsIndexed test k ctx n := by
  by_cases hScope : n = ctx.scope
  · simp [IsIndexed, hScope]
  · have hBelow' := hBelow.resolve_left hScope
    have hCount :
        (ctx.tree.precedingElements n).countP
            ((after before (ofParts parts)).counted.accepts ctx) =
          (ctx.tree.precedingElements n).countP
            ((after before (ofParts parts)).accepts ctx) := by
      apply List.countP_congr
      intro m hMem
      rcases Tree.isBelow_of_mem_precedingElements hMem hBelow' with
        ⟨hBelowM, hOtherM⟩
      rw [accepts_counted_of_isSteady (Tree.mem_precedingElements hMem).1
        hBelowM hOtherM hSimple hSteady]
    rw [IsIndexed, IsIndexed, hCount,
      accepts_counted_of_isSteady hElement hBelow' hScope hSimple hSteady]

/-
  With an index behind it, a query of one branch matches the
  elements that it matches and that have an index as asked
  among those counted.  They are the ones with an index as
  asked among the matches exactly where both indexes of a
  match compare alike, and everywhere if the selector is
  steady.
-/
theorem appended_index_counts_matches_iff
    {query : String}
    {s : Selector E}
    (hRead : read E query = .ok s)
    (hSingle : ∀ branches, s ≠ .group branches)
    (hTrim : Text.trimEnd query.toList = query.toList)
    (test : IndexTest)
    {k : Nat}
    (hFits : k < UInt64.size) :
    ∃ s',
      read E (query ++ ":" ++ test.name ++ "(" ++ toString k ++ ")") =
          .ok s' ∧
        ∀ ctx n,
          ctx.tree.isElement n = true →
            n = ctx.scope ∨ n.IsBelow ctx.scope →
              (s'.accepts ctx n = true ↔
                s.accepts ctx n = true ∧
                  s.counted.IsIndexed test k ctx n) ∧
              ((s'.accepts ctx n = true ↔ s.IsIndexed test k ctx n) ↔
                (s.accepts ctx n = true →
                  (s.counted.IsIndexed test k ctx n ↔
                    s.IsIndexed test k ctx n))) ∧
              (s.isSteady = true →
                (s'.accepts ctx n = true ↔ s.IsIndexed test k ctx n)) := by
  rcases read_append_index hRead hSingle hTrim test hFits with
    ⟨before, parts, hParts, rfl, hMore⟩
  refine ⟨_, hMore, ?_⟩
  intro ctx n hElement hBelow
  have hExact :
      (after before
          (ofParts (parts ++ [.index test k (ofParts parts)]))).accepts
            ctx n = true ↔
        (after before (ofParts parts)).accepts ctx n = true ∧
          (after before (ofParts parts)).counted.IsIndexed test k ctx n := by
    rw [accepts_append_index hElement hParts.2, Bool.and_eq_true,
      accepts_index_iff hElement, IsIndexed]
  have hMatch :
      (after before (ofParts parts)).IsIndexed test k ctx n →
        (after before (ofParts parts)).accepts ctx n = true :=
    fun hIndexed => hIndexed.2.1
  refine ⟨hExact, ?_, ?_⟩
  · rw [hExact]
    tauto
  · intro hSteady
    rw [hExact, isIndexed_counted_of_isSteady hBelow hElement hParts.2
      hSteady]
    tauto

/- An element with three element children, the second unlike the others. -/
def siblingTree : Tree :=
  .element (.unqualified "r") []
    [.element (.unqualified "b") [] [],
     .element (.unqualified "a") [] [],
     .element (.unqualified "b") [] []]

/- Below a parent the index is counted among the matches. -/
theorem appended_index_counts_matches_child :
    ∃ s s',
      read .standard "r > b:gt(0)" = .ok s ∧ s.isSteady = true ∧
        read .standard "r > b:gt(0):eq(0)" = .ok s' ∧
          s'.accepts ⟨siblingTree, .root, {}⟩ (.path [2]) = true := by
  have hRead :
      read .standard "r > b:gt(0)" =
        .ok (relate .child (.tag (.name "r"))
          (.compound [.tag (.name "b"),
            .index .greaterThan 0 (.tag (.name "b"))])) := by
    with_unfolding_all rfl
  have hSingle :
      ∀ branches : List (Selector .standard),
        relate .child (.tag (.name "r"))
          (.compound [.tag (.name "b"),
            .index .greaterThan 0 (.tag (.name "b"))]) ≠ .group branches := by
    intro branches hGroup
    cases hGroup
  have hTrim :
      Text.trimEnd "r > b:gt(0)".toList = "r > b:gt(0)".toList := by
    decide
  rcases appended_index_counts_matches_iff hRead hSingle hTrim .equalTo
    (by decide : 0 < UInt64.size) with ⟨s', hMore, hAccepts⟩
  have hElement : siblingTree.isElement (.path [2]) = true := by decide
  have hBelow : (Node.path [2]).IsBelow .root := by decide
  have hSteady :
      (relate .child (.tag (.name "r"))
        (.compound [.tag (.name "b"),
          .index .greaterThan 0 (.tag (.name "b"))])
        : Selector .standard).isSteady = true := by
    decide
  refine ⟨_, s', hRead, hSteady, hMore, ?_⟩
  refine ((hAccepts ⟨siblingTree, .root, {}⟩ _ hElement
    (.inr hBelow)).2.2 hSteady).2 ?_
  refine ⟨?_, ?_, ?_⟩
  · decide
  · decide
  · decide

/-
  Behind a sibling it is not: the first index is repeated for
  all the siblings, and does not allow for the second.
-/
theorem appended_index_misses_match_behind_sibling :
    ¬ ∀ query s s' test k ctx n,
      read .standard query = .ok s →
        (∀ branches, s ≠ .group branches) →
          Text.trimEnd query.toList = query.toList →
            k < UInt64.size →
              read .standard (query ++ ":" ++ IndexTest.name test ++
                  "(" ++ toString k ++ ")") = .ok s' →
                ctx.tree.isElement n = true →
                  (n = ctx.scope ∨ n.IsBelow ctx.scope) →
                    (s'.accepts ctx n = true ↔
                      s.IsIndexed test k ctx n) := by
  intro hAll
  have hRead :
      read .standard "a + b:eq(0)" =
        .ok (relate .adjacent (.tag (.name "a"))
          (.compound [.tag (.name "b"),
            .index .equalTo 0 (.tag (.name "b"))])) := by
    with_unfolding_all rfl
  have hMore :
      read .standard ("a + b:eq(0)" ++ ":" ++ IndexTest.equalTo.name ++
          "(" ++ toString 0 ++ ")") =
        .ok (relate .adjacent (.tag (.name "a"))
          (.compound [.tag (.name "b"),
            .index .equalTo 0 (.tag (.name "b")),
            .index .equalTo 0
              (.compound [.tag (.name "b"),
                .index .equalTo 0 (.tag (.name "b"))])])) := by
    with_unfolding_all rfl
  have hMatch := (hAll _ _ _ .equalTo 0 ⟨siblingTree, .root, {}⟩
    (.path [2]) hRead (by rintro branches ⟨⟩) (by decide) (by decide) hMore
    (by decide) (by decide)).2
  have hIndexed :
      (relate .adjacent (.tag (.name "a"))
        (.compound [.tag (.name "b"),
          .index .equalTo 0 (.tag (.name "b"))])
        : Selector .standard).IsIndexed .equalTo 0
          ⟨siblingTree, .root, {}⟩ (.path [2]) := by
    refine ⟨?_, ?_, ?_⟩
    · decide
    · decide
    · decide
  revert hMatch
  simp only [hIndexed, forall_const]
  decide

end TreeQuery.Selector
