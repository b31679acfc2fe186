import TreeQuery.Proofs.Tree.Preorder

/-
  Siblings and what is above them.

  The elements before a node have its parent, and so all that
  is above it.  No child is above itself.  The elements before
  an element are those at smaller positions.

  Key definitions include:
    * `Node.IsBelow`
    * `Node.IsWithin`
    * `Node.IsEarlierSibling`

  Main statements:
    * `Tree.ancestors_of_mem_precedingElements`
    * `Tree.isBelow_of_mem_precedingElements`
    * `Tree.mem_precedingElements_path`
    * `Tree.previousElement?_path`
-/

namespace TreeQuery

namespace Node

/- The first node is reached from the second by going down. -/
def IsBelow (n scope : Node) : Prop :=
  scope ∈ n.ancestors

instance (n scope : Node) : Decidable (n.IsBelow scope) :=
  inferInstanceAs (Decidable (scope ∈ n.ancestors))

/- What is above a node is its parent and what is above that. -/
theorem ancestors_eq (n : Node) :
    n.ancestors =
      match n.parent? with
      | some p => p :: p.ancestors
      | none => [] := by
  cases n with
  | attr owner index => rfl
  | path steps =>
      cases steps with
      | nil => rfl
      | cons i steps => rfl

theorem ancestors_of_parent
    {m n : Node}
    (h : m.parent? = n.parent?) :
    m.ancestors = n.ancestors := by
  rw [ancestors_eq m, ancestors_eq n, h]

/- Only paths stand above a path, and they are shorter. -/
theorem exists_path_of_mem_above
    {a : Node}
    {steps : List Nat}
    (h : a ∈ above steps) :
    ∃ steps', a = .path steps' ∧ steps'.length < steps.length := by
  induction steps with
  | nil => simp [above] at h
  | cons i steps ih =>
      rw [above, List.mem_cons] at h
      rcases h with rfl | hAbove
      · exact ⟨steps, rfl, by simp⟩
      · rcases ih hAbove with ⟨steps', rfl, hLess⟩
        refine ⟨steps', rfl, ?_⟩
        rw [List.length_cons]
        omega

theorem length_lt_of_mem_above
    {steps steps' : List Nat}
    (h : .path steps' ∈ above steps) :
    steps'.length < steps.length := by
  rcases exists_path_of_mem_above h with ⟨_, hPath, hLess⟩
  cases hPath
  exact hLess

theorem IsBelow.ne_of_path
    {steps : List Nat}
    {scope : Node}
    (h : (Node.path steps).IsBelow scope) :
    .path steps ≠ scope := by
  rintro rfl
  exact Nat.lt_irrefl _ (length_lt_of_mem_above h)

/- The node is the scope or stands below it. -/
def IsWithin (n scope : Node) : Prop :=
  n = scope ∨ n.IsBelow scope

instance (n scope : Node) : Decidable (n.IsWithin scope) :=
  inferInstanceAs (Decidable (n = scope ∨ n.IsBelow scope))

/- The first node stands before the second one, below the same parent. -/
def IsEarlierSibling (m n : Node) : Prop :=
  ∃ i j steps,
    m = .path (i :: steps) ∧ n = .path (j :: steps) ∧ i < j

theorem isEarlierSibling_path
    {m : Node}
    {j : Nat}
    {steps : List Nat} :
    m.IsEarlierSibling (.path (j :: steps)) ↔
      ∃ i < j, m = .path (i :: steps) := by
  constructor
  · rintro ⟨i, j', steps', rfl, hPath, hLess⟩
    cases hPath
    exact ⟨i, hLess, rfl⟩
  · rintro ⟨i, hLess, rfl⟩
    exact ⟨i, j, steps, rfl, rfl, hLess⟩

/- The parent of a node below the scope is the scope or below it. -/
theorem IsBelow.parent
    {n p scope : Node}
    (h : n.IsBelow scope)
    (hParent : n.parent? = some p) :
    p.IsWithin scope := by
  rw [IsBelow, ancestors_eq, hParent, List.mem_cons] at h
  exact h.imp Eq.symm id

end Node

namespace Tree

/- The elements before a node are elements with its parent. -/
theorem mem_precedingElements
    {t : Tree}
    {m n : Node}
    (h : m ∈ t.precedingElements n) :
    t.isElement m = true ∧
      ∃ i steps, m = .path (i :: steps) ∧
        n.parent? = some (.path steps) := by
  unfold precedingElements at h
  cases hParent : n.parent? with
  | none => simp [hParent] at h
  | some p =>
      rw [hParent, List.mem_reverse] at h
      have hMem : m ∈ t.elementChildren p :=
        (List.takeWhile_prefix _).subset h
      rcases List.mem_filter.1 hMem with ⟨hChild, hElement⟩
      rcases mem_children_iff.1 hChild with
        ⟨steps, s, i, rfl, _, _, rfl⟩
      exact ⟨hElement, i, steps, rfl, rfl⟩

/- They have the same nodes above them. -/
theorem ancestors_of_mem_precedingElements
    {t : Tree}
    {m n : Node}
    (h : m ∈ t.precedingElements n) :
    m.ancestors = n.ancestors := by
  rcases mem_precedingElements h with ⟨_, i, steps, rfl, hParent⟩
  exact Node.ancestors_of_parent hParent.symm

/- What the node is below, they are below, and are not themselves. -/
theorem isBelow_of_mem_precedingElements
    {t : Tree}
    {m n scope : Node}
    (h : m ∈ t.precedingElements n)
    (hBelow : n.IsBelow scope) :
    m.IsBelow scope ∧ m ≠ scope := by
  have hSame := ancestors_of_mem_precedingElements h
  rcases mem_precedingElements h with ⟨_, i, steps, rfl, _⟩
  have hBelow' : (Node.path (i :: steps)).IsBelow scope := by
    rw [Node.IsBelow, hSame]
    exact hBelow
  exact ⟨hBelow', hBelow'.ne_of_path⟩

------------------------------------------------------------
-- Elements Before an Element
------------------------------------------------------------

/- Attributes are no elements. -/
theorem isElement_attr
    (t : Tree)
    (owner : List Nat)
    (index : Nat) :
    t.isElement (.attr owner index) = false := by
  cases h : t.attribute? owner index with
  | none => simp [isElement, kind?, h]
  | some a => simp [isElement, kind?, h]

/- A node of the tree is a child of its parent. -/
theorem mem_children_of_kind?
    {t : Tree}
    {k : Kind}
    {j : Nat}
    {steps : List Nat}
    (h : t.kind? (.path (j :: steps)) = some k) :
    .path (j :: steps) ∈ t.children (.path steps) := by
  rw [mem_children_iff]
  cases hParent : t.subtree? steps with
  | none => simp [kind?, subtree?, hParent] at h
  | some s =>
      refine ⟨steps, s, j, rfl, hParent, ?_, rfl⟩
      by_contra hOutside
      have hNone : s.content[j]? = none := by simpa using hOutside
      simp [kind?, subtree?, hParent, hNone] at h

theorem mem_children_of_isElement
    {t : Tree}
    {j : Nat}
    {steps : List Nat}
    (h : t.isElement (.path (j :: steps)) = true) :
    .path (j :: steps) ∈ t.children (.path steps) :=
  mem_children_of_kind? (by simpa [isElement] using h)

/-
  The elements before an element are the elements at the
  positions before its own, nearest first.
-/
theorem precedingElements_path
    {t : Tree}
    {j : Nat}
    {steps : List Nat}
    (h : t.isElement (.path (j :: steps)) = true) :
    t.precedingElements (.path (j :: steps)) =
      (((List.range j).map fun i => Node.path (i :: steps)).filter
        t.isElement).reverse := by
  rcases t.children_eq_map_range steps with ⟨k, hChildren⟩
  have hLess : j < k := by
    simpa [hChildren] using mem_children_of_isElement h
  rcases Nat.exists_eq_add_of_lt hLess with ⟨later, rfl⟩
  have hSplit :
      List.range (j + later + 1) =
        List.range j ++ j :: (List.range later).map (j + 1 + ·) := by
    rw [Nat.add_assoc, List.range_add, List.range_succ_eq_map]
    simp [Function.comp_def, Nat.add_comm, Nat.add_left_comm]
  have hBefore :
      ∀ m ∈ ((List.range j).map fun i => Node.path (i :: steps)).filter
          t.isElement,
        (m != .path (j :: steps)) = true := by
    intro m hMem
    rcases List.mem_map.1 (List.mem_filter.1 hMem).1 with ⟨i, hi, rfl⟩
    have hNe : i ≠ j := Nat.ne_of_lt (List.mem_range.1 hi)
    simpa using hNe
  have hParent : (Node.path (j :: steps)).parent? = some (.path steps) := rfl
  simp only [precedingElements, hParent, elementChildren, hChildren, hSplit,
    List.map_append, List.map_cons, List.filter_append]
  rw [List.filter_cons_of_pos h, List.takeWhile_append_of_pos hBefore,
    List.takeWhile_cons_of_neg (by simp), List.append_nil]

theorem mem_precedingElements_path
    {t : Tree}
    {m : Node}
    {j : Nat}
    {steps : List Nat}
    (h : t.isElement (.path (j :: steps)) = true) :
    m ∈ t.precedingElements (.path (j :: steps)) ↔
      t.isElement m = true ∧ m.IsEarlierSibling (.path (j :: steps)) := by
  rw [precedingElements_path h, Node.isEarlierSibling_path]
  simp only [List.mem_reverse, List.mem_filter, List.mem_map,
    List.mem_range]
  constructor
  · rintro ⟨⟨i, hLess, rfl⟩, hElement⟩
    exact ⟨hElement, i, hLess, rfl⟩
  · rintro ⟨hElement, i, hLess, rfl⟩
    exact ⟨⟨i, hLess, rfl⟩, hElement⟩

/- The nearest of the elements before a position. -/
theorem head?_elements_before
    {t : Tree}
    {steps : List Nat}
    {m : Node}
    (j : Nat) :
    (((List.range j).map fun i => Node.path (i :: steps)).filter
        t.isElement).reverse.head? = some m ↔
      t.isElement m = true ∧
        ∃ i < j, m = .path (i :: steps) ∧
          ∀ k, i < k → k < j →
            t.isElement (.path (k :: steps)) = false := by
  induction j with
  | zero => simp
  | succ j ih =>
      rw [List.range_succ, List.map_append, List.filter_append,
        List.reverse_append, List.map_singleton, List.filter_singleton]
      by_cases hLast : t.isElement (.path (j :: steps)) = true
      · simp only [hLast, cond_true, List.reverse_singleton,
          List.singleton_append, List.head?_cons, Option.some.injEq]
        constructor
        · rintro rfl
          refine ⟨hLast, j, by omega, rfl, ?_⟩
          intro k hFrom hTo
          omega
        · rintro ⟨_, i, hLess, rfl, hNone⟩
          by_contra hOther
          have hNe : i ≠ j := fun hSame => hOther (by rw [hSame])
          have hNot := hNone j (by omega) (by omega)
          simp [hLast] at hNot
      · simp only [Bool.eq_false_iff.2 hLast, cond_false,
          List.reverse_nil, List.nil_append, ih]
        constructor
        · rintro ⟨hElement, i, hLess, rfl, hNone⟩
          refine ⟨hElement, i, by omega, rfl, ?_⟩
          intro k hFrom hTo
          by_cases hSame : k = j
          · simpa [hSame] using hLast
          · exact hNone k hFrom (by omega)
        · rintro ⟨hElement, i, hLess, rfl, hNone⟩
          have hNe : i ≠ j := by
            rintro rfl
            exact hLast hElement
          refine ⟨hElement, i, by omega, rfl, ?_⟩
          intro k hFrom hTo
          exact hNone k hFrom (by omega)

/- The nearest element before has no other between. -/
theorem previousElement?_path
    {t : Tree}
    {m : Node}
    {j : Nat}
    {steps : List Nat}
    (h : t.isElement (.path (j :: steps)) = true) :
    t.previousElement? (.path (j :: steps)) = some m ↔
      t.isElement m = true ∧ m.IsEarlierSibling (.path (j :: steps)) ∧
        ∀ k, t.isElement k = true → m.IsEarlierSibling k →
          ¬ k.IsEarlierSibling (.path (j :: steps)) := by
  rw [previousElement?, precedingElements_path h, head?_elements_before,
    Node.isEarlierSibling_path]
  constructor
  · rintro ⟨hElement, i, hLess, rfl, hNone⟩
    refine ⟨hElement, ⟨i, hLess, rfl⟩, ?_⟩
    rintro k hOther ⟨i', k', steps', hPath, rfl, hFrom⟩ hTo
    cases hPath
    rcases Node.isEarlierSibling_path.1 hTo with ⟨k'', hTo', hPath⟩
    cases hPath
    simp [hNone k' hFrom hTo'] at hOther
  · rintro ⟨hElement, ⟨i, hLess, rfl⟩, hNone⟩
    refine ⟨hElement, i, hLess, rfl, ?_⟩
    intro k hFrom hTo
    by_contra hOther
    exact hNone (.path (k :: steps)) (by simpa using hOther)
      ⟨i, k, steps, rfl, rfl, hFrom⟩ ⟨k, j, steps, rfl, rfl, hTo⟩

end Tree

end TreeQuery
