import TreeQuery.Proofs.Selector.Context
import TreeQuery.Proofs.Selector.Detached
import TreeQuery.Proofs.Tree.NodeSet
import TreeQuery.Proofs.Tree.Preorder
import TreeQuery.Query

/-
  What a collection returns.

  A collection walks through the elements below its root and
  keeps the ones that are selected.  Since no node comes twice
  in a walk, the set that gathers them never refuses one, and
  the result is the walk without the nodes not selected.
  Nothing outside the subtree of the root has a part in it.
  Collections from several roots share the set, which refuses
  a node where it comes again.

  Main statements:
    * `Selector.collect_eq_filter`
    * `Selector.collect_exactly_reachable_matches`
    * `Selector.first_match_heads_collection`
    * `Selector.collectAll_keeps_first_occurrences`
    * `Selector.collect_reads_subtree_only`
-/

namespace TreeQuery.Selector

variable {E : Engine}

------------------------------------------------------------
-- Gathering
------------------------------------------------------------

/- Collecting extends a set by the selected nodes of the walk. -/
theorem collectInto_eq_extend
    (s : Selector E)
    (t : Tree)
    (options : Options)
    (found : NodeSet)
    (root : Node) :
    s.collectInto t options found root =
      found.extend
        ((t.preorder t.isElement root).filter
          (s.selects t options root)) := by
  rw [collectInto, Tree.walkElements, Tree.walk_eq_visitEach,
    Tree.visitEach_yield fun (found : NodeSet) n =>
      if s.selects t options root n then found.insert n else found]
  rw [NodeSet.extend, List.foldl_filter]
  simp

/- The result is the walk without the nodes not selected. -/
theorem collect_eq_filter
    (s : Selector E)
    (t : Tree)
    (options : Options)
    (root : Node) :
    s.collect t options root =
      (t.preorder t.isElement root).filter
        (s.selects t options root) := by
  have hNodup :
      ((t.preorder t.isElement root).filter
        (s.selects t options root)).Nodup :=
    (t.nodup_preorder t.isElement root).filter _
  rw [collect, collectInto_eq_extend,
    NodeSet.toList_extend_of_new NodeSet.Consistent.empty]
  · simp
  · simpa using hNodup

/- A selected node is an eligible element that matches. -/
theorem selects_iff
    {s : Selector E}
    {t : Tree}
    {options : Options}
    {root n : Node} :
    s.selects t options root n = true ↔
      t.isElement n = true ∧
        s.accepts ⟨t, root, options⟩ n = true ∧
          (options.includeRoot = true ∨ n ≠ root) := by
  simp only [selects, eligible, Bool.and_eq_true, Bool.or_eq_true,
    bne_iff_ne]
  tauto

/- Whether the root may be returned is all that the option decides. -/
theorem selects_without_root
    (s : Selector E)
    (t : Tree)
    (options : Options)
    (root n : Node) :
    s.selects t { options with includeRoot := false } root n =
      (s.selects t { options with includeRoot := true } root n
        && n != root) := by
  have hSame :
      s.accepts ⟨t, root, { options with includeRoot := false }⟩ =
        s.accepts ⟨t, root, { options with includeRoot := true }⟩ :=
    s.accepts_congr ⟨rfl, rfl, rfl⟩
  simp only [selects, eligible, hSame, Bool.false_or, Bool.true_or,
    Bool.and_true]
  rw [Bool.and_right_comm]

------------------------------------------------------------
-- Results
------------------------------------------------------------

/- A node is in the result if it is reached and selected. -/
theorem mem_collect_iff
    {s : Selector E}
    {t : Tree}
    {options : Options}
    {root n : Node} :
    n ∈ s.collect t options root ↔
      t.Leads t.isElement root n ∧
        s.selects t options root n = true := by
  rw [collect_eq_filter, List.mem_filter, Tree.mem_preorder_iff]

open Classical in
/-
  The result of a collection holds, of all nodes from the
  root on in document order, exactly the elements that are
  reached through element children and match with the root as
  scope, the root only where it may be returned.  So it is in
  document order without repetition, agrees with the test of
  single nodes, and loses just the root when the root may not
  be returned.
-/
theorem collect_exactly_reachable_matches
    (s : Selector E)
    (t : Tree)
    (options : Options)
    (root : Node) :
    (s.collect t options root =
        (t.descendantsOrSelf root).filter fun n =>
          t.Leads t.isElement root n ∧
            t.isElement n = true ∧
              s.accepts ⟨t, root, options⟩ n = true ∧
                (options.includeRoot = true ∨ n ≠ root)) ∧
      (s.collect t options root).Pairwise Node.Precedes ∧
      (s.collect t options root).Nodup ∧
      (∀ n,
        n ∈ s.collect t options root ↔
          t.Leads t.isElement root n ∧
            t.isElement n = true ∧
              s.accepts ⟨t, root, options⟩ n = true ∧
                (options.includeRoot = true ∨ n ≠ root)) ∧
      (∀ text n,
        n ∈ (Query.mk text s).select t root ↔
          t.Leads t.isElement root n ∧
            (Query.mk text s).accepts t n root = true) ∧
      s.collect t { options with includeRoot := false } root =
        (s.collect t { options with includeRoot := true } root).filter
          (· != root) := by
  refine ⟨?_, ?_, ?_, ?_, ?_, ?_⟩
  · rw [collect_eq_filter, Tree.preorder_eq_filter,
      Tree.descendantsOrSelf_eq_preorder, List.filter_filter]
    apply List.filter_congr
    intro n _
    rw [Bool.eq_iff_iff, Bool.and_eq_true, selects_iff]
    simp only [decide_eq_true_eq]
    tauto
  · rw [collect_eq_filter]
    exact (t.pairwise_precedes_preorder _ root).filter _
  · rw [collect_eq_filter]
    exact (t.nodup_preorder _ root).filter _
  · intro n
    rw [mem_collect_iff, selects_iff]
  · intro text n
    rw [Query.select, mem_collect_iff, selects_iff, Query.accepts]
    simp
  · rw [collect_eq_filter, collect_eq_filter, List.filter_filter]
    apply List.filter_congr
    intro n _
    rw [selects_without_root, Bool.and_comm]

------------------------------------------------------------
-- First Match
------------------------------------------------------------

/- The search ends at the first node of the walk that is selected. -/
theorem collectFirst?_eq_find?
    (s : Selector E)
    (t : Tree)
    (options : Options)
    (root : Node) :
    s.collectFirst? t options root =
      (t.preorder t.isElement root).find?
        (s.selects t options root) := by
  rw [collectFirst?, Tree.walkElements, Tree.walk_eq_visitEach,
    Tree.visitEach_stop (s.selects t options root) some none,
    List.flatMap_singleton]
  cases (t.preorder t.isElement root).find? (s.selects t options root) with
  | none => rfl
  | some n => rfl

theorem collectFirst?_eq_head?
    (s : Selector E)
    (t : Tree)
    (options : Options)
    (root : Node) :
    s.collectFirst? t options root =
      (s.collect t options root).head? := by
  rw [collectFirst?_eq_find?, collect_eq_filter, List.head?_filter]

/- A collection is in document order. -/
theorem pairwise_precedes_collect
    (s : Selector E)
    (t : Tree)
    (options : Options)
    (root : Node) :
    (s.collect t options root).Pairwise Node.Precedes := by
  rw [collect_eq_filter]
  exact (t.pairwise_precedes_preorder _ root).filter _

/-
  The search that ends at the first match returns what a
  collection begins with: the match that comes before all
  other ones in the document, and nothing exactly if there is
  no match.  So it is for every query, and a query that is
  refused is refused by both.
-/
theorem first_match_heads_collection
    (s : Selector E)
    (t : Tree)
    (options : Options)
    (root : Node) :
    s.collectFirst? t options root =
        (s.collect t options root).head? ∧
      (s.collectFirst? t options root = none ↔
        s.collect t options root = []) ∧
      (∀ n,
        s.collectFirst? t options root = some n ↔
          n ∈ s.collect t options root ∧
            ∀ m ∈ s.collect t options root, m = n ∨ n.Precedes m) ∧
      ∀ text,
        (Query.read E text).map (·.first? t root) =
          (Query.read E text).map fun q => (q.select t root).head? := by
  have hHead := collectFirst?_eq_head? s t options root
  have hOrder := pairwise_precedes_collect s t options root
  refine ⟨hHead, ?_, ?_, ?_⟩
  · rw [hHead, List.head?_eq_none_iff]
  · intro n
    rw [hHead]
    cases hFound : s.collect t options root with
    | nil => simp
    | cons first others =>
        rw [hFound, List.pairwise_cons] at hOrder
        simp only [List.head?_cons, Option.some.injEq, List.mem_cons]
        constructor
        · rintro rfl
          refine ⟨.inl rfl, ?_⟩
          rintro m (hSame | hMem)
          · exact .inl hSame
          · exact .inr (hOrder.1 m hMem)
        · rintro ⟨hSame | hMem, hFirst⟩
          · exact hSame.symm
          -- A later match would have to come before the first one.
          · rcases hFirst first (.inl rfl) with hSame | hBefore
            · exact hSame
            · exact absurd hBefore (hOrder.1 n hMem).asymm
  · intro text
    congr 1
    funext q
    exact collectFirst?_eq_head? q.selector t {} root

------------------------------------------------------------
-- Several Roots
------------------------------------------------------------

/- Collecting from several roots is collecting from one after the other. -/
theorem collectAll_eq_extend
    (s : Selector E)
    (t : Tree)
    (options : Options)
    (roots : List Node) :
    s.collectAll t options roots =
      (NodeSet.empty.extend
        (roots.flatMap (s.collect t options))).toList := by
  have hStep :
      s.collectInto t options =
        fun found root => found.extend (s.collect t options root) := by
    funext found root
    rw [collectInto_eq_extend, collect_eq_filter]
  rw [collectAll, hStep, NodeSet.foldl_extend]

/- Of what the single collections return, first occurrences are kept. -/
theorem collectAll_eq_eraseDups
    (s : Selector E)
    (t : Tree)
    (options : Options)
    (roots : List Node) :
    s.collectAll t options roots =
      (roots.flatMap (s.collect t options)).eraseDups := by
  rw [collectAll_eq_extend,
    NodeSet.toList_extend NodeSet.Consistent.empty]
  simp

theorem nodup_collectAll
    (s : Selector E)
    (t : Tree)
    (options : Options)
    (roots : List Node) :
    (s.collectAll t options roots).Nodup := by
  rw [collectAll_eq_extend]
  exact (NodeSet.Consistent.empty.extend _).nodup

/- A node is returned if the collection from some root returns it. -/
theorem mem_collectAll_iff
    {s : Selector E}
    {t : Tree}
    {options : Options}
    {roots : List Node}
    {n : Node} :
    n ∈ s.collectAll t options roots ↔
      ∃ root ∈ roots, n ∈ s.collect t options root := by
  rw [collectAll_eq_eraseDups, List.mem_eraseDups, List.mem_flatMap]

/-
  A collection from several roots returns what the collections
  from the single roots return one after the other, each node
  where it comes first.  So no node comes twice, the order of
  the roots decides the order of the nodes only, and a node is
  returned exactly if it matches with one of the roots that
  reach it as scope, whatever it does with the others.
-/
theorem collectAll_keeps_first_occurrences
    (s : Selector E)
    (t : Tree)
    (options : Options)
    (roots : List Node) :
    s.collectAll t options roots =
        (roots.flatMap (s.collect t options)).eraseDups ∧
      (s.collectAll t options roots).Pairwise
        (fun m n =>
          (roots.flatMap (s.collect t options)).idxOf m <
            (roots.flatMap (s.collect t options)).idxOf n) ∧
      (s.collectAll t options roots).Nodup ∧
      (∀ roots', roots.Perm roots' →
        (s.collectAll t options roots).Perm
          (s.collectAll t options roots')) ∧
      ∀ n,
        n ∈ s.collectAll t options roots ↔
          ∃ root ∈ roots,
            t.Leads t.isElement root n ∧
              t.isElement n = true ∧
                s.accepts ⟨t, root, options⟩ n = true ∧
                  (options.includeRoot = true ∨ n ≠ root) := by
  refine ⟨collectAll_eq_eraseDups s t options roots, ?_,
    nodup_collectAll s t options roots, ?_, ?_⟩
  · rw [collectAll_eq_eraseDups]
    exact NodeSet.pairwise_idxOf_eraseDups _
  · intro roots' hPerm
    rw [List.perm_ext_iff_of_nodup (nodup_collectAll s t options roots)
      (nodup_collectAll s t options roots')]
    intro n
    simp only [mem_collectAll_iff, hPerm.mem_iff]
  · intro n
    simp only [mem_collectAll_iff, mem_collect_iff, selects_iff]

/- An element in another one, which is in a third. -/
def stackedTree : Tree :=
  .element (.unqualified "r") []
    [.element (.unqualified "b") [] [.element (.unqualified "c") [] []]]

/-
  The innermost element is reached from two roots and matches
  with one of them only; this root comes first.
-/
theorem collectAll_keeps_first_occurrences_nested_roots :
    [Node.path [0], .root, .path [0]].Perm [.root, .path [0], .path [0]] ∧
      (.combine .child .scope .universal : Selector .standard).collectAll
          stackedTree {} [.path [0], .root, .path [0]] =
        [.path [0, 0], .path [0]] ∧
        [Node.path [0, 0], .path [0]].Perm
          ((.combine .child .scope .universal : Selector .standard).collectAll
            stackedTree {} [.root, .path [0], .path [0]]) := by
  have hPerm :
      [Node.path [0], .root, .path [0]].Perm
        [.root, .path [0], .path [0]] :=
    List.Perm.swap ..
  have hInner :
      (.combine .child .scope .universal : Selector .standard).collect
        stackedTree {} (.path [0]) = [.path [0, 0]] := by
    rw [collect_eq_filter]
    with_unfolding_all rfl
  have hOuter :
      (.combine .child .scope .universal : Selector .standard).collect
        stackedTree {} .root = [.path [0]] := by
    rw [collect_eq_filter]
    with_unfolding_all rfl
  have hUnion := collectAll_keeps_first_occurrences
    (.combine .child .scope .universal : Selector .standard) stackedTree {}
    [.path [0], .root, .path [0]]
  have hFound :
      (.combine .child .scope .universal : Selector .standard).collectAll
          stackedTree {} [.path [0], .root, .path [0]] =
        [.path [0, 0], .path [0]] := by
    rw [hUnion.1]
    simp only [List.flatMap_cons, List.flatMap_nil, hInner, hOuter]
    decide
  refine ⟨hPerm, hFound, ?_⟩
  rw [← hFound]
  exact hUnion.2.2.2.1 _ hPerm

------------------------------------------------------------
-- Subtrees
------------------------------------------------------------

/- What is selected in a subtree is selected in the whole tree. -/
theorem selects_under
    {t sub : Tree}
    {steps : List Nat}
    (h : t.subtree? steps = some sub)
    {s : Selector E}
    (hPosition :
      s.isPositionFree = true ∨ t.elementParent? (.path steps) = none)
    (options : Options)
    (n : Node) :
    s.selects t options (.path steps) (n.under steps) =
      s.selects sub options .root n := by
  have hAccepts := accepts_under h s hPosition options n.isWithin_root
  rw [Node.under_root] at hAccepts
  rw [selects, selects, eligible, eligible, Tree.isElement_under h,
    hAccepts, ← Node.under_root steps, Node.under_bne]

/-
  A collection from a node returns what a collection from the
  root of its subtree returns, where the subtree is a tree of
  its own: the nodes that correspond, in the same order.  This
  holds of all selectors that test no position among siblings,
  and of all selectors where the node has no parent that is an
  element.  An attribute has nothing to return.
-/
theorem collect_reads_subtree_only
    (s : Selector E)
    (t : Tree)
    (options : Options) :
    (∀ steps sub,
        t.subtree? steps = some sub →
          (s.isPositionFree = true ∨
              t.elementParent? (.path steps) = none) →
            s.collect t options (.path steps) =
              (s.collect sub options .root).map (Node.under steps)) ∧
      ∀ owner index, s.collect t options (.attr owner index) = [] := by
  constructor
  · intro steps sub h hPosition
    have hNodes :
        t.preorder t.isElement (.path steps) =
          (sub.preorder sub.isElement .root).map (Node.under steps) :=
      Tree.preorder_under h (Tree.isElement_under h) .root
    rw [collect_eq_filter, collect_eq_filter, hNodes, List.filter_map]
    congr 1
    exact List.filter_congr fun n _ => selects_under h hPosition options n
  · intro owner index
    apply List.eq_nil_iff_forall_not_mem.2
    intro n hMem
    rcases mem_collect_iff.1 hMem with ⟨hLeads, hSelected⟩
    cases hLeads with
    | here =>
        have hElement := (selects_iff.1 hSelected).1
        rw [Tree.isElement_attr] at hElement
        exact Bool.noConfusion hElement
    | through hChild _ _ => simp [Tree.children] at hChild

/- An element in another one, with siblings around and within. -/
def innerTree : Tree :=
  .element (.unqualified "b") []
    [.text "text", .element (.unqualified "c") [] [],
     .element (.unqualified "a") [] []]

/- The last child of an inner element follows another one. -/
theorem collect_reads_subtree_only_beside_others :
    (Tree.element (.unqualified "r") []
        [.element (.unqualified "c") [] [], innerTree]).subtree? [1] =
        some innerTree ∧
      (.combine .adjacent (.tag (.name "c"))
          (.tag (.name "a")) : Selector .standard).isPositionFree = true ∧
        (.combine .adjacent (.tag (.name "c"))
            (.tag (.name "a")) : Selector .standard).collect
          (.element (.unqualified "r") []
            [.element (.unqualified "c") [] [], innerTree])
          {} (.path [1]) = [.path [2, 1]] := by
  have hSubtree :
      (Tree.element (.unqualified "r") []
        [.element (.unqualified "c") [] [], innerTree]).subtree? [1] =
          some innerTree := rfl
  have hFree :
      (.combine .adjacent (.tag (.name "c"))
        (.tag (.name "a")) : Selector .standard).isPositionFree = true := by
    decide
  have hInner :
      (.combine .adjacent (.tag (.name "c"))
          (.tag (.name "a")) : Selector .standard).collect innerTree {}
        .root =
      [.path [2]] := by
    rw [collect_eq_filter]
    with_unfolding_all rfl
  refine ⟨hSubtree, hFree, ?_⟩
  rw [(collect_reads_subtree_only _ _ _).1 [1] innerTree hSubtree
    (.inl hFree), hInner]
  rfl

end TreeQuery.Selector
