import TreeQuery.Proofs.Candidates

/-
  Navigation between siblings in mixed content.

  The elements before a node are looked for among the element
  children of its parent, up to the node itself.  An element
  is found there.  A text, a comment or a document is not, so
  that the elements behind it are taken for elements before it.

  Main statements:
    * `Tree.precedingElements_of_isElement_eq_false`
    * `Tree.siblings_are_found_iff`
-/

namespace TreeQuery.Tree

variable {t : Tree} {n p : Node} {before after : List Node}

------------------------------------------------------------
-- Where the Element Children Stand
------------------------------------------------------------

/- A node of the tree, not an attribute, is a child of its parent. -/
theorem mem_children_of_parent
    {k : Kind}
    (hKind : t.kind? n = some k)
    (hNode : k ≠ .attr)
    (hParent : n.parent? = some p) :
    n ∈ t.children p := by
  cases n with
  | attr owner index =>
      rw [kind?, Option.map_eq_some_iff] at hKind
      rcases hKind with ⟨a, _, rfl⟩
      exact absurd rfl hNode
  | path steps =>
      cases steps with
      | nil => cases hParent
      | cons j steps =>
          cases hParent
          exact mem_children_of_kind? hKind

/- The element children are those before a child and those behind it. -/
theorem elementChildren_of_split
    (hSplit : t.children p = before ++ n :: after) :
    t.elementChildren p =
      before.filter t.isElement ++ (n :: after).filter t.isElement := by
  rw [elementChildren, hSplit, List.filter_append]

theorem elementChildren_of_split_element
    (hSplit : t.children p = before ++ n :: after)
    (hElement : t.isElement n = true) :
    t.elementChildren p =
      before.filter t.isElement ++ n :: after.filter t.isElement := by
  rw [elementChildren_of_split hSplit, List.filter_cons_of_pos hElement]

/- The position of an element is the number of elements before it. -/
theorem siblingIndex_of_split
    (hSplit : t.elementChildren p = before ++ n :: after) :
    t.siblingIndex n = before.length := by
  have hMem : n ∈ t.elementChildren p := by simp [hSplit]
  have hParent := parent?_of_mem_children (List.mem_filter.1 hMem).1
  have hNodup := t.nodup_elementChildren p
  rw [hSplit, List.nodup_append] at hNodup
  have hNone : before.findIdx? (· == n) = none := by
    rw [List.findIdx?_eq_none_iff]
    intro m hLeft
    simpa using hNodup.2.2 m hLeft n (by simp)
  rw [siblingIndex, hParent]
  simp [hSplit, List.findIdx?_append, hNone, List.findIdx?_cons]

------------------------------------------------------------
-- Nodes That Are No Elements
------------------------------------------------------------

/- The search for a node that is no element does not find it. -/
theorem precedingElements_of_isElement_eq_false
    (hParent : n.parent? = some p)
    (hOther : t.isElement n = false) :
    t.precedingElements n = (t.elementChildren p).reverse := by
  have hNe : ∀ m ∈ t.elementChildren p, (m != n) = true := by
    intro m hMem
    have hElement := (List.mem_filter.1 hMem).2
    rw [bne_iff_ne]
    rintro rfl
    simp [hOther] at hElement
  rw [precedingElements, hParent]
  simp only [List.takeWhile_eq_self_iff.2 hNe]

/- So it takes the elements on both sides of the node. -/
theorem precedingElements_of_split_other
    (hSplit : t.children p = before ++ n :: after)
    (hOther : t.isElement n = false) :
    t.precedingElements n =
      (after.filter t.isElement).reverse ++
        (before.filter t.isElement).reverse := by
  have hChild : n ∈ t.children p := by simp [hSplit]
  have hNot : ¬ t.isElement n = true := by simp [hOther]
  rw [precedingElements_of_isElement_eq_false
      (parent?_of_mem_children hChild) hOther,
    elementChildren_of_split hSplit, List.filter_cons_of_neg hNot,
    List.reverse_append]

/- The nearest of them stands before the node if none stands behind it. -/
theorem head?_precedingElements_iff
    (hSplit : t.children p = before ++ n :: after)
    (hOther : t.isElement n = false) :
    (t.precedingElements n).head? =
        (before.filter t.isElement).reverse.head? ↔
      after.filter t.isElement = [] := by
  rw [precedingElements_of_split_other hSplit hOther]
  constructor
  · intro hSame
    by_contra hBehind
    rcases List.exists_mem_of_ne_nil _ hBehind with ⟨_, hMem⟩
    cases hHead : (after.filter t.isElement).reverse with
    | nil => exact hBehind (List.reverse_eq_nil_iff.1 hHead)
    | cons m ms =>
        have hAfter : m ∈ after := by
          have hMem : m ∈ (after.filter t.isElement).reverse := by
            simp [hHead]
          exact (List.mem_filter.1 (List.mem_reverse.1 hMem)).1
        rw [hHead, List.cons_append, List.head?_cons] at hSame
        have hBefore : m ∈ before := by
          have hMem := List.mem_of_mem_head? hSame.symm
          exact (List.mem_filter.1 (List.mem_reverse.1 hMem)).1
        have hNodup := t.nodup_children p
        rw [hSplit, List.nodup_append] at hNodup
        exact hNodup.2.2 m hBefore m (by simp [hAfter]) rfl
  · intro hNone
    rw [hNone, List.reverse_nil, List.nil_append]

------------------------------------------------------------
-- Navigation
------------------------------------------------------------

/-
  A node with a parent stands among the children of it, and
  the elements before it are found exactly if it is an
  element itself or if no element stands behind it; otherwise
  those behind it are found as well, and come first.  The
  nearest element before it is found under the same condition.
  For an element the position is the number of elements
  before it.
-/
theorem siblings_are_found_iff
    {k : Kind}
    (hKind : t.kind? n = some k)
    (hNode : k ≠ .attr)
    (hParent : n.parent? = some p) :
    n ∈ t.children p ∧
      ∀ before after, t.children p = before ++ n :: after →
        (t.precedingElements n = (before.filter t.isElement).reverse ↔
            t.isElement n = true ∨ after.filter t.isElement = []) ∧
          (t.previousElement? n =
              (before.filter t.isElement).reverse.head? ↔
            t.isElement n = true ∨ after.filter t.isElement = []) ∧
          (t.isElement n = true →
            t.siblingIndex n = (before.filter t.isElement).length) ∧
          (t.isElement n = false →
            t.precedingElements n =
              (after.filter t.isElement).reverse ++
                (before.filter t.isElement).reverse) := by
  refine ⟨mem_children_of_parent hKind hNode hParent, ?_⟩
  intro before after hSplit
  cases hElement : t.isElement n with
  | true =>
      have hElements := elementChildren_of_split_element hSplit hElement
      have hPreceding := precedingElements_of_split hElements
      have hIndex := siblingIndex_of_split hElements
      simp [previousElement?, hPreceding, hIndex]
  | false =>
      have hPreceding := precedingElements_of_split_other hSplit hElement
      have hHead := head?_precedingElements_iff hSplit hElement
      rw [previousElement?, hHead]
      simp only [hPreceding, List.append_left_eq_self,
        List.reverse_eq_nil_iff]
      simp

/- A text between two elements, and a comment behind both. -/
def mixed : Tree :=
  .element (.unqualified "r") []
    [.element (.unqualified "a") [] [], .text "x",
     .element (.unqualified "b") [] [], .comment "c"]

/-
  Before the second element and before the comment the
  elements are found, before the text the second one as well.
-/
theorem siblings_are_found_iff_mixed :
    mixed.kind? (.path [1]) = some .text ∧
      mixed.precedingElements (.path [2]) = [.path [0]] ∧
      mixed.precedingElements (.path [3]) = [.path [2], .path [0]] ∧
      mixed.precedingElements (.path [1]) ≠ [.path [0]] := by
  have hText : mixed.kind? (.path [1]) = some .text := rfl
  have hSecond :=
    siblings_are_found_iff (t := mixed) (n := .path [2]) (p := .root)
      (k := .element) rfl (by decide) rfl
  have hComment :=
    siblings_are_found_iff (t := mixed) (n := .path [3]) (p := .root)
      (k := .comment) rfl (by decide) rfl
  have hBetween :=
    siblings_are_found_iff (t := mixed) (n := .path [1]) (p := .root)
      hText (by decide) rfl
  refine ⟨hText, ?_, ?_, ?_⟩
  · exact (hSecond.2 [.path [0], .path [1]] [.path [3]] rfl).1.2
      (.inl (by decide))
  · exact (hComment.2 [.path [0], .path [1], .path [2]] [] rfl).1.2
      (.inr rfl)
  · intro hFound
    rcases (hBetween.2 [.path [0]] [.path [2], .path [3]] rfl).1.1 hFound
      with hElement | hNone
    · exact absurd hElement (by decide)
    · exact absurd hNone (by decide)

/-
  Before a text at the beginning stands no element, but the
  element behind it is found.
-/
theorem siblings_of_text_are_missed :
    ((Tree.element (.unqualified "r") []
        [.text "x", .element (.unqualified "b") [] []]).children .root =
        [.path [0], .path [1]]) ∧
      (Tree.element (.unqualified "r") []
        [.text "x", .element (.unqualified "b") [] []]).precedingElements
          (.path [0]) =
        [.path [1]] ∧
      (Tree.element (.unqualified "r") []
        [.text "x", .element (.unqualified "b") [] []]).previousElement?
          (.path [0]) =
        some (.path [1]) := by
  decide

end TreeQuery.Tree
