import TreeQuery.Proofs.Tree.Detached

/-
  Going down and going up.

  A walk that follows elements goes down from a node through
  its children; the ancestors of a node are found by going up
  through whatever stands there.  Going down reaches an
  element exactly if everything that is passed on the way up
  from it is an element too.  A document below an element is
  passed on the way up, but not on the way down.

  Key definitions include:
    * `Tree.AreElementsBetween`

  Main statements:
    * `Tree.leads_isElement_iff`
    * `Tree.areElementsBetween_of_documents_on_top`
    * `Tree.anyElementBelow_iff`
-/

namespace TreeQuery

------------------------------------------------------------
-- Last Steps
------------------------------------------------------------

namespace Tree

variable {t : Tree} {follow : Node → Bool} {n : Node}

/- A way down goes on with one more child. -/
theorem Leads.concat
    {m c : Node}
    (h : t.Leads follow n m)
    (hChild : c ∈ t.children m)
    (hFollow : follow c = true) :
    t.Leads follow n c := by
  induction h with
  | here m => exact .through hChild hFollow (.here c)
  | through hFirst hFollow' _ ih =>
      exact .through hFirst hFollow' (ih hChild)

/- The last step of a way down leads from the parent. -/
theorem Leads.parent
    {i : Nat}
    {steps : List Nat}
    (h : t.Leads follow n (.path (i :: steps)))
    (hOther : n ≠ .path (i :: steps)) :
    follow (.path (i :: steps)) = true ∧
      t.Leads follow n (.path steps) := by
  generalize hEnd : Node.path (i :: steps) = m at h hOther
  induction h with
  | here m => exact absurd rfl hOther
  | @through n c m hChild hFollow hRest ih =>
      by_cases hLast : c = m
      · subst hLast
        rcases mem_children_iff.1 hChild with ⟨_, _, _, rfl, _, _, hStep⟩
        rw [hStep] at hEnd
        cases hEnd
        exact ⟨hFollow, .here _⟩
      · rcases ih hEnd hLast with ⟨hFollow', hInit⟩
        exact ⟨hFollow', .through hChild hFollow hInit⟩

------------------------------------------------------------
-- Ways Down and Ways Up
------------------------------------------------------------

/- All nodes below a node on the way up from another are elements. -/
def AreElementsBetween (t : Tree) (n d : Node) : Prop :=
  ∀ k, d.IsBelow k → k.IsBelow n → t.isElement k = true

/- No node is below one that is above it. -/
theorem not_isBelow_of_mem_above
    {k : Node}
    {steps : List Nat}
    (h : k ∈ Node.above steps) :
    ¬ k.IsBelow (.path steps) := by
  intro hBelow
  rcases Node.exists_path_of_mem_above h with ⟨steps', rfl, hLess⟩
  have hMore := Node.length_lt_of_mem_above hBelow
  omega

/- An element is not below itself. -/
theorem ne_of_isBelow
    {d : Node}
    (hElement : t.isElement d = true)
    (hBelow : d.IsBelow n) :
    d ≠ n := by
  cases d with
  | path steps => exact hBelow.ne_of_path
  | attr owner index => simp [isElement_attr] at hElement

/- A way down to another node ends below its start. -/
theorem Leads.isBelow
    {m : Node}
    (h : t.Leads follow n m)
    (hOther : m ≠ n) :
    m.IsBelow n := by
  cases h with
  | here => exact absurd rfl hOther
  | through hChild _ hRest => exact isBelow_of_leads hChild hRest

/- All nodes that a way down passes after its start are followed. -/
theorem Leads.follows_above
    {steps : List Nat}
    (h : t.Leads follow n (.path steps))
    (hOther : Node.path steps ≠ n) :
    follow (.path steps) = true ∧
      ∀ k ∈ Node.above steps, k.IsBelow n → follow k = true := by
  induction steps with
  | nil => exact absurd rfl (h.isBelow hOther).ne_root
  | cons i steps ih =>
      rcases h.parent hOther.symm with ⟨hFollow, hInit⟩
      refine ⟨hFollow, ?_⟩
      intro k hAbove hBelow
      -- The start is not the parent, or `k` would be above it.
      have hParent : Node.path steps ≠ n := by
        rintro rfl
        rw [Node.above, List.mem_cons] at hAbove
        rcases hAbove with rfl | hAbove
        · exact hBelow.ne_of_path rfl
        · exact not_isBelow_of_mem_above hAbove hBelow
      rcases ih hInit hParent with ⟨hHere, hFurther⟩
      rw [Node.above, List.mem_cons] at hAbove
      rcases hAbove with rfl | hAbove
      · exact hHere
      · exact hFurther k hAbove hBelow

/- A way up through elements can be gone down. -/
theorem leads_of_areElementsBetween
    {steps : List Nat}
    (hElement : t.isElement (.path steps) = true)
    (hBelow : (Node.path steps).IsBelow n)
    (hBetween : t.AreElementsBetween n (.path steps)) :
    t.Leads t.isElement n (.path steps) := by
  induction steps with
  | nil => exact absurd rfl hBelow.ne_root
  | cons i steps ih =>
      have hChild := mem_children_of_isElement hElement
      rw [Node.IsBelow, Node.ancestors, Node.above, List.mem_cons] at hBelow
      rcases hBelow with rfl | hAbove
      · exact .through hChild hElement (.here _)
      · have hParent : t.isElement (.path steps) = true :=
          hBetween _ List.mem_cons_self hAbove
        have hFurther : t.AreElementsBetween n (.path steps) :=
          fun k hk hkn => hBetween k (List.mem_cons_of_mem _ hk) hkn
        exact (ih hParent hAbove hFurther).concat hChild hElement

/-
  A walk through elements reaches another node exactly if the
  node is an element, stands below the start, and has only
  elements between the start and itself.
-/
theorem leads_isElement_iff
    {d : Node}
    (hOther : d ≠ n) :
    t.Leads t.isElement n d ↔
      t.isElement d = true ∧ d.IsBelow n ∧ t.AreElementsBetween n d := by
  constructor
  · intro h
    have hBelow := h.isBelow hOther
    cases d with
    | path steps =>
        rcases h.follows_above hOther with ⟨hElement, hAbove⟩
        exact ⟨hElement, hBelow, hAbove⟩
    | attr owner index =>
        cases h with
        | here => exact absurd rfl hOther
        | @through _ c _ hChild _ hRest =>
            rcases mem_children_iff.1 hChild with ⟨_, _, _, _, _, _, rfl⟩
            rcases hRest.exists_path with ⟨_, hPath⟩
            cases hPath
  · rintro ⟨hElement, hBelow, hBetween⟩
    cases d with
    | path steps =>
        exact leads_of_areElementsBetween hElement hBelow hBetween
    | attr owner index => simp [isElement_attr] at hElement

------------------------------------------------------------
-- Documents
------------------------------------------------------------

/- Only elements and documents have trees in them. -/
theorem kind?_of_mem_above
    {steps : List Nat}
    {sub : Tree}
    (hSubtree : t.subtree? steps = some sub)
    {k : Node}
    (hAbove : k ∈ Node.above steps) :
    t.kind? k = some .element ∨ t.kind? k = some .document := by
  induction steps generalizing sub with
  | nil => simp [Node.above] at hAbove
  | cons i steps ih =>
      rw [subtree?, Option.bind_eq_some_iff] at hSubtree
      rcases hSubtree with ⟨parent, hParent, hChild⟩
      rw [Node.above, List.mem_cons] at hAbove
      rcases hAbove with rfl | hAbove
      · cases parent with
        | document content => exact .inr (by simp [kind?, hParent, rootKind])
        | element name attributes content =>
            exact .inl (by simp [kind?, hParent, rootKind])
        | text value => simp [content] at hChild
        | comment value => simp [content] at hChild
      · exact ih hParent hAbove

/-
  If only the root of the tree is a document, then only
  elements stand between an element and a node above it.
-/
theorem areElementsBetween_of_documents_on_top
    (hTop : ∀ k, t.kind? k = some .document → k = .root)
    {d : Node}
    (hElement : t.isElement d = true) :
    t.AreElementsBetween n d := by
  intro k hBelow hAbove
  cases d with
  | attr owner index => simp [isElement_attr] at hElement
  | path steps =>
      cases hSubtree : t.subtree? steps with
      | none => simp [isElement, kind?, hSubtree] at hElement
      | some sub =>
          rcases kind?_of_mem_above hSubtree hBelow with hKind | hKind
          · simp [isElement, hKind]
          · exact absurd (hTop k hKind) hAbove.ne_root

------------------------------------------------------------
-- Searches
------------------------------------------------------------

/- A search below a node looks at all nodes it leads to but itself. -/
theorem anyElementBelow_iff
    {p : Node → Bool} :
    t.anyElementBelow n p = true ↔
      ∃ m, t.Leads t.isElement n m ∧ m ≠ n ∧ p m = true := by
  rw [anyElementBelow_eq_any, List.any_eq_true]
  constructor
  · rintro ⟨m, hMem, hHolds⟩
    rcases List.mem_flatMap.1 hMem with ⟨c, hChild, hBelow⟩
    rcases List.mem_filter.1 hChild with ⟨hChild, hFollow⟩
    have hLeads := mem_preorder_iff.1 hBelow
    refine ⟨m, .through hChild hFollow hLeads, ?_, hHolds⟩
    rintro rfl
    exact Leads.not_child_to_self hChild hLeads
  · rintro ⟨m, hLeads, hOther, hHolds⟩
    cases hLeads with
    | here => exact absurd rfl hOther
    | @through _ c _ hChild hFollow hRest =>
        refine ⟨m, List.mem_flatMap.2 ⟨c, ?_, mem_preorder_iff.2 hRest⟩,
          hHolds⟩
        exact List.mem_filter.2 ⟨hChild, hFollow⟩

end Tree

end TreeQuery
