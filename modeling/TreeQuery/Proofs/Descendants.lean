import TreeQuery.Pattern.Standard
import TreeQuery.Proofs.Collection
import TreeQuery.Proofs.Index
import TreeQuery.Proofs.Tree.Descent

/-
  What is asked of the descendants of an element.

  A test of descendants searches the same elements as a
  collection from the element, with the element as scope, and
  so it finds one exactly if the collection returns some.
  Both go down through elements only.  The combinator for
  descendants goes up instead, through documents as well, and
  sees more where a document stands below an element.

  Main statements:
    * `Selector.has_agrees_with_collection`
    * `Selector.descent_agrees_iff_elements_between`
-/

namespace TreeQuery

variable {E : Engine}

/- The same options for a collection that does not return its root. -/
def Options.withoutRoot (options : Options) : Options :=
  { options with includeRoot := false }

namespace Selector

variable {t : Tree} {options : Options}

------------------------------------------------------------
-- Tests of Descendants
------------------------------------------------------------

/- Whether the root may be returned does not matter to a test. -/
theorem accepts_withoutRoot
    (s : Selector E)
    (t : Tree)
    (options : Options)
    (scope : Node) :
    s.accepts ⟨t, scope, options.withoutRoot⟩ =
      s.accepts ⟨t, scope, options⟩ :=
  s.accepts_congr ⟨rfl, rfl, rfl⟩

/- Without its root, a collection returns the matches it reaches below. -/
theorem mem_collect_withoutRoot_iff
    {s : Selector E}
    {n m : Node} :
    m ∈ s.collect t options.withoutRoot n ↔
      t.Leads t.isElement n m ∧ m ≠ n ∧
        s.accepts ⟨t, n, options⟩ m = true := by
  have hNever : options.withoutRoot.includeRoot ≠ true := Bool.false_ne_true
  rw [mem_collect_iff, selects_iff, accepts_withoutRoot]
  constructor
  · rintro ⟨hLeads, _, hMatch, hOther⟩
    exact ⟨hLeads, hOther.resolve_left hNever, hMatch⟩
  · rintro ⟨hLeads, hOther, hMatch⟩
    have hElement := ((Tree.leads_isElement_iff hOther).1 hLeads).1
    exact ⟨hLeads, hElement, hMatch, .inr hOther⟩

theorem collect_withoutRoot_ne_nil_iff
    {s : Selector E}
    {n : Node} :
    s.collect t options.withoutRoot n ≠ [] ↔
      ∃ m, t.Leads t.isElement n m ∧ m ≠ n ∧
        s.accepts ⟨t, n, options⟩ m = true := by
  simp only [← mem_collect_withoutRoot_iff]
  exact ⟨List.exists_mem_of_ne_nil _, fun ⟨_, hMem⟩ => List.ne_nil_of_mem hMem⟩

/- A test of descendants finds what the collection returns. -/
theorem accepts_has_iff
    {inner : Selector E}
    {scope n : Node} :
    (Selector.has inner).accepts ⟨t, scope, options⟩ n = true ↔
      t.isElement n = true ∧
        inner.collect t options.withoutRoot n ≠ [] := by
  rw [accepts, Bool.and_eq_true, Tree.anyElementBelow_iff,
    collect_withoutRoot_ne_nil_iff]
  rfl

/-
  A test of descendants matches an element exactly if the
  collection from the element returns something, its root
  apart: if an element below it, reached through elements,
  matches with it as scope.  The scope in which the element is
  tested has no part in it, neither by itself nor where the
  test is negated, is asked of descendants again, or stands on
  either side of a combinator.
-/
theorem has_agrees_with_collection
    (inner : Selector E)
    (t : Tree)
    (options : Options) :
    (∀ scope n,
        (Selector.has inner).accepts ⟨t, scope, options⟩ n = true ↔
          t.isElement n = true ∧
            inner.collect t options.withoutRoot n ≠ []) ∧
      (∀ n,
        inner.collect t options.withoutRoot n ≠ [] ↔
          ∃ m, m ≠ n ∧ t.isElement m = true ∧
            t.Leads t.isElement n m ∧
              inner.accepts ⟨t, n, options⟩ m = true) ∧
      (∀ scope n,
        (Selector.not (.has inner)).accepts ⟨t, scope, options⟩ n = true ↔
          t.isElement n = true ∧
            inner.collect t options.withoutRoot n = []) ∧
      (∀ scope n,
        (Selector.has (.has inner)).accepts ⟨t, scope, options⟩ n = true ↔
          t.isElement n = true ∧
            ∃ m, m ≠ n ∧ t.isElement m = true ∧
              t.Leads t.isElement n m ∧
                inner.collect t options.withoutRoot m ≠ []) ∧
      (∀ c left scope n,
        (Selector.combine c left (.has inner)).accepts
            ⟨t, scope, options⟩ n = true ↔
          t.isElement n = true ∧ n ≠ scope ∧
            inner.collect t options.withoutRoot n ≠ [] ∧
              ∃ m ∈ c.origins ⟨t, scope, options⟩ n,
                left.accepts ⟨t, scope, options⟩ m = true) ∧
      ∀ c right scope n,
        (Selector.combine c (.has inner) right).accepts
            ⟨t, scope, options⟩ n = true ↔
          t.isElement n = true ∧ n ≠ scope ∧
            right.accepts ⟨t, scope, options⟩ n = true ∧
              ∃ m ∈ c.origins ⟨t, scope, options⟩ n,
                t.isElement m = true ∧
                  inner.collect t options.withoutRoot m ≠ [] := by
  have hReached :
      ∀ {n m : Node}, t.Leads t.isElement n m → m ≠ n →
        t.isElement m = true :=
    fun hLeads hOther => ((Tree.leads_isElement_iff hOther).1 hLeads).1
  refine ⟨fun scope n => accepts_has_iff, ?_, ?_, ?_, ?_, ?_⟩
  · intro n
    rw [collect_withoutRoot_ne_nil_iff]
    constructor
    · rintro ⟨m, hLeads, hOther, hMatch⟩
      exact ⟨m, hOther, hReached hLeads hOther, hLeads, hMatch⟩
    · rintro ⟨m, hOther, _, hLeads, hMatch⟩
      exact ⟨m, hLeads, hOther, hMatch⟩
  · intro scope n
    rw [accepts, Bool.and_eq_true, Bool.not_eq_true',
      Bool.eq_false_iff, Ne, accepts_has_iff]
    tauto
  · intro scope n
    rw [accepts_has_iff, collect_withoutRoot_ne_nil_iff]
    simp only [accepts_has_iff]
    constructor
    · rintro ⟨hElement, m, hLeads, hOther, hInner, hSome⟩
      exact ⟨hElement, m, hOther, hInner, hLeads, hSome⟩
    · rintro ⟨hElement, m, hOther, hInner, hLeads, hSome⟩
      exact ⟨hElement, m, hLeads, hOther, hInner, hSome⟩
  · intro c left scope n
    rw [accepts]
    simp only [Bool.and_eq_true, bne_iff_ne, List.any_eq_true,
      accepts_has_iff]
    tauto
  · intro c right scope n
    rw [accepts]
    simp only [Bool.and_eq_true, bne_iff_ne, List.any_eq_true,
      accepts_has_iff]
    tauto

------------------------------------------------------------
-- Down and Up
------------------------------------------------------------

/- A test of the name, the id, a class or an attribute. -/
def isOwnTest : Selector E → Bool
| .tag _ | .id _ | .className _ | .attr _ _ | .attrStarting _ => true
| _ => false

theorem isScopeFree_ofParts (parts : List (Selector E)) :
    (ofParts parts).isScopeFree = parts.all isScopeFree := by
  rcases parts with _ | ⟨part, _ | ⟨next, parts⟩⟩
  · simp [ofParts, isScopeFree, areAllScopeFree]
  · simp [ofParts]
  · simp [ofParts, isScopeFree, areAllScopeFree_eq_all]

/- Compounds of such tests do not read the scope. -/
theorem isScopeFree_of_ownTests
    {parts : List (Selector E)}
    (h : ∀ part ∈ parts, part.isOwnTest = true) :
    (ofParts parts).isScopeFree = true := by
  rw [isScopeFree_ofParts, List.all_eq_true]
  intro part hMem
  have hPart := h part hMem
  cases part with
  | tag | id | className | attr | attrStarting => rfl
  | _ => simp [isOwnTest] at hPart

/- A test of descendants asks for a match that is reached below. -/
theorem accepts_has_of_isScopeFree
    {b : Selector E}
    (hFree : b.isScopeFree = true)
    {scope n : Node} :
    (Selector.has b).accepts ⟨t, scope, options⟩ n = true ↔
      t.isElement n = true ∧
        ∃ d, t.isElement d = true ∧ d.IsBelow n ∧
          t.AreElementsBetween n d ∧
            b.accepts ⟨t, scope, options⟩ d = true := by
  have hScope : b.accepts ⟨t, n, options⟩ = b.accepts ⟨t, scope, options⟩ :=
    accepts_within b hFree ⟨t, scope, options⟩ n
  rw [accepts_has_iff, collect_withoutRoot_ne_nil_iff, hScope]
  refine and_congr_right fun _ => exists_congr fun d => ?_
  constructor
  · rintro ⟨hLeads, hOther, hMatch⟩
    rcases (Tree.leads_isElement_iff hOther).1 hLeads with
      ⟨hElement, hBelow, hBetween⟩
    exact ⟨hElement, hBelow, hBetween, hMatch⟩
  · rintro ⟨hElement, hBelow, hBetween, hMatch⟩
    have hOther := Tree.ne_of_isBelow hElement hBelow
    exact ⟨(Tree.leads_isElement_iff hOther).2
      ⟨hElement, hBelow, hBetween⟩, hOther, hMatch⟩

/-
  Going down from a node finds the elements that have the
  node among their ancestors: a test of descendants behind
  other tests asks for such an element, and a collection from
  the node returns all of them that match.
-/
structure DescentAgrees
    (t : Tree)
    (options : Options)
    (as : List (Selector E))
    (b : Selector E) : Prop where
  has : ∀ scope n, t.isElement n = true →
    ((ofParts (as ++ [.has b])).accepts ⟨t, scope, options⟩ n = true ↔
      (ofParts as).accepts ⟨t, scope, options⟩ n = true ∧
        ∃ d, t.isElement d = true ∧ d.IsBelow n ∧
          b.accepts ⟨t, scope, options⟩ d = true)
  collect : ∀ scope root d, t.isElement d = true → d.IsBelow root →
    b.accepts ⟨t, scope, options⟩ d = true →
      d ∈ b.collect t options root

/- A test of descendants behind other tests is one more test. -/
theorem accepts_ofParts_has
    {as : List (Selector E)}
    {b : Selector E}
    (hFree : b.isScopeFree = true)
    {scope n : Node}
    (hElement : t.isElement n = true) :
    (ofParts (as ++ [.has b])).accepts ⟨t, scope, options⟩ n = true ↔
      (ofParts as).accepts ⟨t, scope, options⟩ n = true ∧
        ∃ d, t.isElement d = true ∧ d.IsBelow n ∧
          t.AreElementsBetween n d ∧
            b.accepts ⟨t, scope, options⟩ d = true := by
  rw [accepts_ofParts hElement, accepts_ofParts hElement,
    List.all_append, Bool.and_eq_true, List.all_cons, List.all_nil,
    Bool.and_true, accepts_has_of_isScopeFree hFree]
  simp only [hElement, true_and]

/- A match below a root is returned if only elements stand between. -/
theorem mem_collect_of_isBelow_iff
    {b : Selector E}
    (hFree : b.isScopeFree = true)
    {scope root d : Node}
    (hElement : t.isElement d = true)
    (hBelow : d.IsBelow root)
    (hMatch : b.accepts ⟨t, scope, options⟩ d = true) :
    d ∈ b.collect t options root ↔ t.AreElementsBetween root d := by
  have hOther := Tree.ne_of_isBelow hElement hBelow
  have hScope : b.accepts ⟨t, root, options⟩ d = true := by
    rw [← hMatch]
    exact congrFun (accepts_within b hFree ⟨t, scope, options⟩ root) d
  rw [mem_collect_iff, selects_iff, Tree.leads_isElement_iff hOther]
  simp only [hElement, hBelow, hScope, hOther, ne_eq, not_false_eq_true,
    or_true, and_true, true_and]

/-
  For compounds of tests of names, ids, classes and attributes,
  going down finds exactly those of the elements below a node
  that have only elements between the node and themselves.  So
  it agrees with going up wherever no document stands below
  another node.
-/
theorem descent_agrees_iff_elements_between
    (t : Tree)
    (options : Options)
    (as bs : List (Selector E))
    (hTests : ∀ b ∈ bs, b.isOwnTest = true) :
    (∀ scope n, t.isElement n = true →
        ((ofParts (as ++ [.has (ofParts bs)])).accepts
            ⟨t, scope, options⟩ n = true ↔
          (ofParts as).accepts ⟨t, scope, options⟩ n = true ∧
            ∃ d, t.isElement d = true ∧ d.IsBelow n ∧
              t.AreElementsBetween n d ∧
                (ofParts bs).accepts ⟨t, scope, options⟩ d = true)) ∧
      (∀ scope root d, t.isElement d = true → d.IsBelow root →
        (ofParts bs).accepts ⟨t, scope, options⟩ d = true →
          (d ∈ (ofParts bs).collect t options root ↔
            t.AreElementsBetween root d)) ∧
      ((∀ k, t.kind? k = some .document → k = .root) →
        DescentAgrees t options as (ofParts bs)) := by
  have hFree := isScopeFree_of_ownTests hTests
  refine ⟨fun scope n hElement => accepts_ofParts_has hFree hElement,
    fun scope root d => mem_collect_of_isBelow_iff hFree, ?_⟩
  intro hTop
  have hBetween :
      ∀ n d, t.isElement d = true → t.AreElementsBetween n d :=
    fun n d => Tree.areElementsBetween_of_documents_on_top hTop
  constructor
  · intro scope n hElement
    rw [accepts_ofParts_has hFree hElement]
    refine and_congr_right fun _ => exists_congr fun d => ?_
    have hd := hBetween n d
    tauto
  · intro scope root d hElement hBelow hMatch
    exact (mem_collect_of_isBelow_iff hFree hElement hBelow hMatch).2
      (hBetween root d hElement)

/- An element with a document and an element in it, each with a child. -/
def mountedTree : Tree :=
  .element (.unqualified "r") []
    [.document [.element (.unqualified "b") [] []],
     .element (.unqualified "a") [] [.element (.unqualified "b") [] []]]

/-
  Of two like elements, the one in the document is not found,
  the other one is.
-/
theorem descent_agrees_iff_elements_between_mounted :
    (∀ b ∈ [(.tag (.name "b") : Selector .standard)], b.isOwnTest = true) ∧
      (.compound
            [.tag (.name "r"),
             .has (.tag (.name "b"))] : Selector .standard).accepts
          ⟨mountedTree, .root, {}⟩ .root = true ∧
        .path [0, 1] ∈
            (.tag (.name "b") : Selector .standard).collect mountedTree {}
              .root ∧
          .path [0, 0] ∉
            (.tag (.name "b") : Selector .standard).collect mountedTree {}
              .root := by
  have hTests :
      ∀ b ∈ [(.tag (.name "b") : Selector .standard)],
        b.isOwnTest = true := by
    decide
  have hMatch :
      ∀ d ∈ [Node.path [0, 0], .path [0, 1]],
        mountedTree.isElement d = true ∧ d.IsBelow .root ∧
          (.tag (.name "b") : Selector .standard).accepts
            ⟨mountedTree, .root, {}⟩ d = true := by
    decide
  have hBetween : mountedTree.AreElementsBetween .root (.path [0, 1]) := by
    intro k hBelow hAbove
    have hMem : k ∈ [Node.path [1], .root] := hBelow
    rcases List.mem_pair.1 hMem with rfl | rfl
    · decide
    · exact absurd rfl hAbove.ne_root
  have hApart : ¬ mountedTree.AreElementsBetween .root (.path [0, 0]) := by
    intro hAll
    have hDocument := hAll (.path [0]) (by decide) (by decide)
    revert hDocument
    decide
  rcases hMatch (.path [0, 0]) (by simp) with ⟨hFirst, hFirstBelow, hb⟩
  rcases hMatch (.path [0, 1]) (by simp) with ⟨hSecond, hSecondBelow, hb'⟩
  rcases descent_agrees_iff_elements_between mountedTree {}
    [.tag (.name "r")] [.tag (.name "b")] hTests with ⟨hHas, hCollect, _⟩
  refine ⟨hTests, ?_, ?_, ?_⟩
  · exact (hHas .root .root (by decide)).2
      ⟨by decide, _, hSecond, hSecondBelow, hBetween, hb'⟩
  · exact (hCollect .root .root _ hSecond hSecondBelow hb').2 hBetween
  · intro hMem
    exact hApart ((hCollect .root .root _ hFirst hFirstBelow hb).1 hMem)

/- An element with nothing in it but a document with a child. -/
def frameTree : Tree :=
  .element (.unqualified "r") []
    [.document [.element (.unqualified "b") [] []]]

/-
  The child of the document has the outer element among its
  ancestors, but neither the test of descendants nor the
  collection goes down to it.
-/
theorem descent_disagrees_below_inner_document :
    read .standard "r:has(b)" =
        .ok (.compound [.tag (.name "r"), .has (.tag (.name "b"))]) ∧
      frameTree.isElement (.path [0, 0]) = true ∧
        (Node.path [0, 0]).IsBelow .root ∧
          (.tag (.name "b") : Selector .standard).accepts
              ⟨frameTree, .root, {}⟩ (.path [0, 0]) = true ∧
            (.tag (.name "r") : Selector .standard).accepts
                ⟨frameTree, .root, {}⟩ .root = true ∧
              (.compound
                  [.tag (.name "r"),
                   .has (.tag (.name "b"))] : Selector .standard).accepts
                ⟨frameTree, .root, {}⟩ .root = false ∧
                .path [0, 0] ∉
                    (.tag (.name "b") : Selector .standard).collect frameTree
                      {} .root ∧
                  ¬ DescentAgrees frameTree {} [.tag (.name "r")]
                      (.tag (.name "b") : Selector .standard) := by
  have hFree :
      (.tag (.name "b") : Selector .standard).isScopeFree = true :=
    rfl
  have hElement : frameTree.isElement (.path [0, 0]) = true := by decide
  have hBelow : (Node.path [0, 0]).IsBelow .root := by decide
  have hMatch :
      (.tag (.name "b") : Selector .standard).accepts
        ⟨frameTree, .root, {}⟩ (.path [0, 0]) = true := by
    decide
  have hRoot :
      (.tag (.name "r") : Selector .standard).accepts
        ⟨frameTree, .root, {}⟩ .root = true := by
    decide
  have hMissing :
      .path [0, 0] ∉
        (.tag (.name "b") : Selector .standard).collect frameTree {}
          .root := by
    rw [mem_collect_of_isBelow_iff hFree hElement hBelow hMatch]
    intro hBetween
    have hDocument := hBetween (.path [0]) (by decide) (by decide)
    revert hDocument
    decide
  have hHas :
      (.compound
          [.tag (.name "r"),
           .has (.tag (.name "b"))] : Selector .standard).accepts
        ⟨frameTree, .root, {}⟩ .root = false := by
    with_unfolding_all rfl
  have hRead :
      read .standard "r:has(b)" =
        .ok (.compound [.tag (.name "r"), .has (.tag (.name "b"))]) := by
    with_unfolding_all rfl
  refine ⟨hRead, hElement, hBelow, hMatch, hRoot, hHas, hMissing, ?_⟩
  intro hAgrees
  exact hMissing (hAgrees.collect .root .root _ hElement hBelow hMatch)

end Selector

end TreeQuery
