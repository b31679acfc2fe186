import TreeQuery.Proofs.Tree.Descent
import TreeQuery.Tree.Content

/-
  The text of a node is put together from the texts of its
  children.

  The walk through all nodes below a node is its pre-order, so
  the texts come in document order.  What a child contributes
  stands in one piece.  A comment contributes nothing, though
  it has a text of its own.

  Key definitions include:
    * `Tree.HoldsContent`
    * `Tree.contribution`

  Main statements:
    * `Tree.descendantsOrSelf_eq`
    * `Tree.stringValue_eq_join_children`
    * `Tree.stringValue_infix_of_mem_children`
    * `Tree.stringValue_infix_of_mem_ancestors`
-/

namespace TreeQuery

/- The texts that several lists make up are joined list by list. -/
theorem join_flatMap
    {α : Type}
    (f : α → List String)
    (xs : List α) :
    String.join (xs.flatMap f) =
      String.join (xs.map fun x => String.join (f x)) := by
  induction xs with
  | nil => rfl
  | cons x xs ih =>
      rw [List.flatMap_cons, String.join_append, List.map_cons,
        String.join_cons, ih]

namespace Tree

variable {t : Tree} {n c a : Node}

------------------------------------------------------------
-- Elements and Documents
------------------------------------------------------------

/- The node is an element or a document. -/
def HoldsContent (t : Tree) (n : Node) : Prop :=
  t.kind? n = some .element ∨ t.kind? n = some .document

/- Elements and documents are no attributes, and no texts. -/
theorem HoldsContent.exists_path (h : t.HoldsContent n) :
    ∃ steps s, n = .path steps ∧ t.subtree? steps = some s ∧
      (s.rootKind = .element ∨ s.rootKind = .document) := by
  cases n with
  | attr owner index => simp [HoldsContent, kind?] at h
  | path steps =>
      cases hSubtree : t.subtree? steps with
      | none => simp [HoldsContent, kind?, hSubtree] at h
      | some s =>
          refine ⟨steps, s, rfl, hSubtree, ?_⟩
          simpa [HoldsContent, kind?, hSubtree] using h

/- They hold no text themselves. -/
theorem HoldsContent.textPart?_eq (h : t.HoldsContent n) :
    t.textPart? n = none := by
  rcases h.exists_path with ⟨steps, s, rfl, hSubtree, hKind⟩
  cases s with
  | document content => simp [textPart?, hSubtree]
  | element name attributes content => simp [textPart?, hSubtree]
  | text value => simp [rootKind] at hKind
  | comment value => simp [rootKind] at hKind

/- Their text is that of all nodes below them. -/
theorem HoldsContent.stringValue_eq (h : t.HoldsContent n) :
    t.stringValue n =
      String.join ((t.descendantsOrSelf n).filterMap t.textPart?) := by
  rcases h.exists_path with ⟨steps, s, rfl, hSubtree, hKind⟩
  cases s with
  | document content => simp [stringValue, hSubtree]
  | element name attributes content => simp [stringValue, hSubtree]
  | text value => simp [rootKind] at hKind
  | comment value => simp [rootKind] at hKind

/- A child has a tree of its own. -/
theorem exists_subtree_of_mem_children (h : c ∈ t.children n) :
    ∃ i steps s, n = .path steps ∧ c = .path (i :: steps) ∧
      t.subtree? (i :: steps) = some s := by
  rcases mem_children_iff.1 h with
    ⟨steps, s, i, rfl, hSubtree, hBound, rfl⟩
  exact ⟨i, steps, s.content[i], rfl, rfl,
    by simp [subtree?, hSubtree, hBound]⟩

/- What has a child is an element or a document. -/
theorem holdsContent_of_mem_children (h : c ∈ t.children n) :
    t.HoldsContent n := by
  rcases exists_subtree_of_mem_children h with
    ⟨i, steps, s, rfl, rfl, hSubtree⟩
  exact kind?_of_mem_above hSubtree List.mem_cons_self

------------------------------------------------------------
-- Children
------------------------------------------------------------

/- A node comes before the nodes below its children, child by child. -/
theorem descendantsOrSelf_eq (t : Tree) (n : Node) :
    t.descendantsOrSelf n =
      n :: (t.children n).flatMap t.descendantsOrSelf := by
  have hBelow : t.descendantsOrSelf = t.preorder fun _ => true :=
    funext t.descendantsOrSelf_eq_preorder
  rw [hBelow, preorder_eq, List.filter_true]

/-
  What a node adds to the text of its parent: what it holds if
  it is a text, its own text if it is an element or a document,
  and nothing if it is a comment.
-/
def contribution (t : Tree) (n : Node) : String :=
  match t.kind? n with
  | some .text => (t.textPart? n).getD ""
  | some .element | some .document => t.stringValue n
  | some .comment | some .attr | none => ""

theorem HoldsContent.contribution_eq (h : t.HoldsContent n) :
    t.contribution n = t.stringValue n := by
  rcases h with hKind | hKind
  · rw [contribution, hKind]
  · rw [contribution, hKind]

/- The texts below a child are what it contributes. -/
theorem join_descendantsOrSelf_of_mem_children
    (h : c ∈ t.children n) :
    String.join ((t.descendantsOrSelf c).filterMap t.textPart?) =
      t.contribution c := by
  rcases exists_subtree_of_mem_children h with
    ⟨i, steps, child, rfl, rfl, hChild⟩
  cases child with
  | document content =>
      have hHolds : t.HoldsContent (.path (i :: steps)) :=
        .inr (by simp [kind?, hChild, rootKind])
      rw [hHolds.contribution_eq, hHolds.stringValue_eq]
  | element name attributes content =>
      have hHolds : t.HoldsContent (.path (i :: steps)) :=
        .inl (by simp [kind?, hChild, rootKind])
      rw [hHolds.contribution_eq, hHolds.stringValue_eq]
  | text value =>
      rw [descendantsOrSelf_eq]
      simp [children, contribution, kind?, textPart?, hChild, content,
        rootKind]
  | comment value =>
      rw [descendantsOrSelf_eq]
      simp [children, contribution, kind?, textPart?, hChild, content,
        rootKind]

/- The text of a node is what its children contribute, in order. -/
theorem stringValue_eq_join_children (h : t.HoldsContent n) :
    t.stringValue n =
      String.join ((t.children n).map t.contribution) := by
  rw [h.stringValue_eq, descendantsOrSelf_eq, List.filterMap_cons,
    h.textPart?_eq, List.filterMap_flatMap, join_flatMap]
  exact congrArg String.join (List.map_congr_left fun c hChild =>
    join_descendantsOrSelf_of_mem_children hChild)

------------------------------------------------------------
-- Parts of Texts
------------------------------------------------------------

/- What a child contributes stands in the text in one piece. -/
theorem contribution_infix_of_mem_children (h : c ∈ t.children n) :
    (t.contribution c).toList <:+: (t.stringValue n).toList := by
  rcases List.append_of_mem h with ⟨before, after, hSplit⟩
  rw [stringValue_eq_join_children (holdsContent_of_mem_children h),
    hSplit, List.map_append, List.map_cons, String.join_append,
    String.join_cons, String.toList_append, String.toList_append]
  exact ⟨_, _, List.append_assoc _ _ _⟩

/- A child that is no comment contributes its text. -/
theorem contribution_of_mem_children
    (h : c ∈ t.children n)
    (hOther : t.kind? c ≠ some .comment) :
    t.contribution c = t.stringValue c := by
  rcases exists_subtree_of_mem_children h with
    ⟨i, steps, child, rfl, rfl, hChild⟩
  cases child with
  | document content => simp [contribution, kind?, hChild, rootKind]
  | element name attributes content =>
      simp [contribution, kind?, hChild, rootKind]
  | text value =>
      simp [contribution, kind?, textPart?, stringValue, hChild, rootKind]
  | comment value => simp [kind?, hChild, rootKind] at hOther

theorem stringValue_infix_of_mem_children
    (h : c ∈ t.children n)
    (hOther : t.kind? c ≠ some .comment) :
    (t.stringValue c).toList <:+: (t.stringValue n).toList := by
  rw [← contribution_of_mem_children h hOther]
  exact contribution_infix_of_mem_children h

/- So it is for an element or a document at any depth. -/
theorem stringValue_infix_of_mem_ancestors
    (h : t.HoldsContent n)
    (hAbove : a ∈ n.ancestors) :
    (t.stringValue n).toList <:+: (t.stringValue a).toList := by
  rcases h.exists_path with ⟨steps, _, rfl, -⟩
  induction steps with
  | nil => simp [Node.ancestors, Node.above] at hAbove
  | cons i steps ih =>
      have hChild : .path (i :: steps) ∈ t.children (.path steps) := by
        rcases h with hKind | hKind
        · exact mem_children_of_kind? hKind
        · exact mem_children_of_kind? hKind
      have hOther : t.kind? (.path (i :: steps)) ≠ some .comment := by
        rcases h with hKind | hKind
        · simp [hKind]
        · simp [hKind]
      have hParent := stringValue_infix_of_mem_children hChild hOther
      rw [Node.ancestors, Node.above, List.mem_cons] at hAbove
      rcases hAbove with rfl | hAbove
      · exact hParent
      · exact hParent.trans
          (ih (holdsContent_of_mem_children hChild) hAbove)

end Tree

end TreeQuery
