import Mathlib.Data.List.Induction
import Mathlib.Logic.Function.Basic
import TreeQuery.Pattern.Standard
import TreeQuery.Proofs.Tree.Siblings
import TreeQuery.Selector.Matching

/-
  Routes: the nodes on which the compounds of a chain match.

  A chain of combinators is tested from its end.  The left
  operand of a combinator is tested on nodes that are found by
  going up or back from the node of the right operand, and
  every one of them is tried.  So a chain matches a node if
  there is a node for each of its compounds at all, each
  related to the next as its combinator says.

  Key definitions include:
    * `Combinator.Relates`
    * `Selector.chainOf`

  Main statements:
    * `Combinator.mem_origins_iff`
    * `Selector.accepts_combine_iff`
    * `Selector.accepts_chainOf_iff_exists_route`
-/

namespace TreeQuery

variable {E : Engine}

------------------------------------------------------------
-- Related Nodes
------------------------------------------------------------

/-
  The first node stands to the second one as the left operand
  of a combinator does to the right one: above it, as its
  parent, as the nearest element before it, or as any.
-/
def Combinator.Relates (c : Combinator) (t : Tree) (m n : Node) : Prop :=
  match c with
  | .descendant => n.IsBelow m
  | .child => n.parent? = some m
  | .adjacent =>
      t.isElement m = true ∧ m.IsEarlierSibling n ∧
        ∀ k, t.isElement k = true → m.IsEarlierSibling k →
          ¬ k.IsEarlierSibling n
  | .sibling => t.isElement m = true ∧ m.IsEarlierSibling n

/-
  The search upwards as far as the scope finds all nodes above
  that do not stand above the scope.
-/
theorem mem_takeThrough_above
    {scope a : Node}
    {steps : List Nat}
    (h : scope ∈ Node.above steps) :
    a ∈ takeThrough (· == scope) (Node.above steps) ↔
      a ∈ Node.above steps ∧ a.IsWithin scope := by
  induction steps with
  | nil => simp [Node.above] at h
  | cons i steps ih =>
      by_cases hScope : Node.path steps = scope
      · subst hScope
        have hOutside :
            a ∈ Node.above steps → ¬ a.IsWithin (.path steps) := by
          intro hAbove hWithin
          rcases Node.exists_path_of_mem_above hAbove with
            ⟨steps', rfl, hLess⟩
          rcases hWithin with hSame | hBelow
          · cases hSame
            exact Nat.lt_irrefl _ hLess
          · have hMore := Node.length_lt_of_mem_above hBelow
            omega
        simp only [Node.above, takeThrough, beq_self_eq_true,
          ↓reduceIte, List.mem_cons, List.not_mem_nil, or_false]
        constructor
        · rintro rfl
          exact ⟨.inl rfl, .inl rfl⟩
        · rintro ⟨hSame | hAbove, hWithin⟩
          · exact hSame
          · exact absurd hWithin (hOutside hAbove)
      · have hAbove : scope ∈ Node.above steps := by
          rw [Node.above, List.mem_cons] at h
          exact h.resolve_left fun hSame => hScope hSame.symm
        simp only [Node.above, takeThrough, beq_iff_eq, hScope,
          ↓reduceIte, List.mem_cons, ih hAbove]
        constructor
        · rintro (rfl | ⟨hMem, hWithin⟩)
          · exact ⟨.inl rfl, .inr hAbove⟩
          · exact ⟨.inr hMem, hWithin⟩
        · rintro ⟨rfl | hMem, hWithin⟩
          · exact .inl rfl
          · exact .inr ⟨hMem, hWithin⟩

/-
  Below the scope, the left operand is tested on the related
  nodes that are not above the scope, and on no others.
-/
theorem Combinator.mem_origins_iff
    {c : Combinator}
    {ctx : Context}
    {m n : Node}
    (hElement : ctx.tree.isElement n = true)
    (hBelow : n.IsBelow ctx.scope) :
    m ∈ c.origins ctx n ↔
      m.IsWithin ctx.scope ∧ c.Relates ctx.tree m n := by
  have hStep : ∃ j steps, n = .path (j :: steps) := by
    rcases n with (_ | ⟨j, steps⟩) | ⟨owner, index⟩
    · simp [Node.IsBelow, Node.ancestors, Node.above] at hBelow
    · exact ⟨j, steps, rfl⟩
    · simp [Tree.isElement_attr] at hElement
  rcases hStep with ⟨j, steps, rfl⟩
  have hBeside :
      ∀ {k : Node}, k ∈ ctx.tree.precedingElements (.path (j :: steps)) →
        k.IsWithin ctx.scope := fun hMem =>
    .inr (Tree.isBelow_of_mem_precedingElements hMem hBelow).1
  cases c with
  | descendant =>
      rw [origins, Relates, and_comm]
      exact mem_takeThrough_above hBelow
  | child =>
      rw [origins, Relates, Option.mem_toList]
      constructor
      · intro hParent
        exact ⟨hBelow.parent hParent, hParent⟩
      · exact fun h => h.2
  | adjacent =>
      rw [origins, Relates, Option.mem_toList,
        Tree.previousElement?_path hElement]
      constructor
      · rintro ⟨hOrigin, hEarlier, hNearest⟩
        have hMem := (Tree.mem_precedingElements_path hElement).2
          ⟨hOrigin, hEarlier⟩
        exact ⟨hBeside hMem, hOrigin, hEarlier, hNearest⟩
      · exact fun h => h.2
  | sibling =>
      rw [origins, Relates]
      constructor
      · intro hMem
        exact ⟨hBeside hMem,
          (Tree.mem_precedingElements_path hElement).1 hMem⟩
      · rintro ⟨_, hEarlier⟩
        exact (Tree.mem_precedingElements_path hElement).2 hEarlier

------------------------------------------------------------
-- Chains
------------------------------------------------------------

namespace Selector

/- Only the scope is matched without being an element. -/
theorem isElement_of_accepts
    {s : Selector E}
    {ctx : Context}
    {n : Node}
    (h : s.accepts ctx n = true) :
    ctx.tree.isElement n = true ∨ s = .scope ∧ n = ctx.scope := by
  cases s with
  | scope => exact .inr ⟨rfl, by simpa [accepts] using h⟩
  | universal => exact .inl (by simpa [accepts] using h)
  | _ =>
      simp only [accepts, Bool.and_eq_true] at h
      exact .inl (by simp only [h])

/- A combinator asks for a node that is related to a match. -/
theorem accepts_combine_iff
    {c : Combinator}
    {left right : Selector E}
    {ctx : Context}
    {n : Node}
    (hWithin : n.IsWithin ctx.scope) :
    (Selector.combine c left right).accepts ctx n = true ↔
      n ≠ ctx.scope ∧
        right.accepts ctx n = true ∧
          ∃ m, m.IsWithin ctx.scope ∧
            c.Relates ctx.tree m n ∧ left.accepts ctx m = true := by
  simp only [accepts, Bool.and_eq_true, bne_iff_ne, List.any_eq_true]
  constructor
  · rintro ⟨⟨⟨hElement, hOther⟩, hRight⟩, m, hMem, hLeft⟩
    have hBelow := hWithin.resolve_left hOther
    rcases (Combinator.mem_origins_iff hElement hBelow).1 hMem with
      ⟨hInside, hRelated⟩
    exact ⟨hOther, hRight, m, hInside, hRelated, hLeft⟩
  · rintro ⟨hOther, hRight, m, hInside, hRelated, hLeft⟩
    have hBelow := hWithin.resolve_left hOther
    have hElement := (isElement_of_accepts hRight).resolve_right
      fun hScope => hOther hScope.2
    have hMem := (Combinator.mem_origins_iff hElement hBelow).2
      ⟨hInside, hRelated⟩
    exact ⟨⟨⟨hElement, hOther⟩, hRight⟩, m, hMem, hLeft⟩

/- A chain of selectors, each related to all that stands before it. -/
def chainOf
    (first : Selector E)
    (links : List (Combinator × Selector E)) : Selector E :=
  links.foldl (fun left (c, right) => .combine c left right) first

theorem chainOf_append
    (first : Selector E)
    (links : List (Combinator × Selector E))
    (link : Combinator × Selector E) :
    chainOf first (links ++ [link]) =
      .combine link.1 (chainOf first links) link.2 := by
  simp [chainOf]

/-
  Nodes for the selectors of a chain, from the first one on:
  none of them is outside the scope, only the first one may be
  the scope, and each is related to the next.
-/
structure IsRoute
    (first : Selector E)
    (links : List (Combinator × Selector E))
    (ctx : Context)
    (nodes : Nat → Node) : Prop where
  within : ∀ i ≤ links.length, (nodes i).IsWithin ctx.scope
  start : first.accepts ctx (nodes 0) = true
  step : ∀ i (h : i < links.length),
    nodes (i + 1) ≠ ctx.scope ∧
      links[i].2.accepts ctx (nodes (i + 1)) = true ∧
        links[i].1.Relates ctx.tree (nodes i) (nodes (i + 1))

section Route

variable
  {first : Selector E}
  {links : List (Combinator × Selector E)}
  {ctx : Context}
  {nodes : Nat → Node}

/- A route for a chain without its last selector. -/
theorem IsRoute.init
    {link : Combinator × Selector E}
    (h : IsRoute first (links ++ [link]) ctx nodes) :
    IsRoute first links ctx nodes := by
  refine ⟨?_, h.start, ?_⟩
  · intro i hBound
    apply h.within
    simp only [List.length_append, List.length_singleton]
    omega
  · intro i hBound
    have hLonger : i < (links ++ [link]).length := by
      simp only [List.length_append, List.length_singleton]
      omega
    have hStep := h.step i hLonger
    rw [List.getElem_append_left hBound] at hStep
    exact hStep

/- The last step of a route. -/
theorem IsRoute.last
    {link : Combinator × Selector E}
    (h : IsRoute first (links ++ [link]) ctx nodes) :
    nodes (links.length + 1) ≠ ctx.scope ∧
      link.2.accepts ctx (nodes (links.length + 1)) = true ∧
        link.1.Relates ctx.tree (nodes links.length)
          (nodes (links.length + 1)) := by
  have hStep := h.step links.length (by simp)
  simpa using hStep

/- A route goes on with one more node. -/
theorem IsRoute.extend
    (h : IsRoute first links ctx nodes)
    {link : Combinator × Selector E}
    {n : Node}
    (hWithin : n.IsWithin ctx.scope)
    (hOther : n ≠ ctx.scope)
    (hMatch : link.2.accepts ctx n = true)
    (hRelated : link.1.Relates ctx.tree (nodes links.length) n) :
    IsRoute first (links ++ [link]) ctx
      (Function.update nodes (links.length + 1) n) := by
  have hOld :
      ∀ i ≤ links.length,
        Function.update nodes (links.length + 1) n i = nodes i := by
    intro i hBound
    have hNe : i ≠ links.length + 1 := by omega
    exact Function.update_of_ne hNe n nodes
  refine ⟨?_, ?_, ?_⟩
  · intro i hBound
    rw [List.length_append, List.length_singleton] at hBound
    by_cases hNew : i = links.length + 1
    · rw [hNew, Function.update_self]
      exact hWithin
    · rw [hOld i (by omega)]
      exact h.within i (by omega)
  · rw [hOld 0 (Nat.zero_le _)]
    exact h.start
  · intro i hBound
    rw [List.length_append, List.length_singleton] at hBound
    by_cases hNew : i = links.length
    · subst hNew
      rw [hOld _ (Nat.le_refl _), Function.update_self]
      simpa using ⟨hOther, hMatch, hRelated⟩
    · have hInside : i < links.length := by omega
      rw [hOld i (by omega), hOld (i + 1) hInside,
        List.getElem_append_left hInside]
      exact h.step i hInside

/-
  A chain matches a node of the scope exactly if some route
  for its selectors ends at the node.  So no match is missed,
  whatever the combinators and however far the nodes are from
  each other.
-/
theorem accepts_chainOf_iff_exists_route
    (first : Selector E)
    (links : List (Combinator × Selector E))
    (ctx : Context)
    (n : Node)
    (hWithin : n.IsWithin ctx.scope) :
    (chainOf first links).accepts ctx n = true ↔
      ∃ nodes, nodes links.length = n ∧ IsRoute first links ctx nodes := by
  induction links using List.reverseRecOn generalizing n with
  | nil =>
      constructor
      · intro hFirst
        refine ⟨fun _ => n, rfl, fun _ _ => hWithin, hFirst, ?_⟩
        intro i hBound
        exact absurd hBound (Nat.not_lt_zero i)
      · rintro ⟨nodes, hEnd, hRoute⟩
        rw [← hEnd]
        exact hRoute.start
  | append_singleton links link ih =>
      rw [chainOf_append, accepts_combine_iff hWithin,
        List.length_append, List.length_singleton]
      constructor
      · rintro ⟨hOther, hMatch, m, hInside, hRelated, hLeft⟩
        rcases (ih m hInside).1 hLeft with ⟨nodes, rfl, hRoute⟩
        exact ⟨_, Function.update_self _ n nodes,
          hRoute.extend hWithin hOther hMatch hRelated⟩
      · rintro ⟨nodes, rfl, hRoute⟩
        rcases hRoute.last with ⟨hOther, hMatch, hRelated⟩
        have hInside := hRoute.init.within links.length (Nat.le_refl _)
        refine ⟨hOther, hMatch, _, hInside, hRelated, ?_⟩
        exact (ih _ hInside).2 ⟨nodes, rfl, hRoute.init⟩

end Route

/- An element in two others of one name, all inside a fourth. -/
def nestedTree : Tree :=
  .element (.unqualified "a") []
    [.element (.unqualified "b") []
      [.element (.unqualified "b") []
        [.element (.unqualified "c") [] []]]]

/-
  The nearest ancestor that matches is not the child that is
  asked for, but the one above it is.
-/
theorem accepts_chainOf_past_nearest_ancestor :
    (Node.path [0, 0, 0]).IsWithin .root ∧
      (chainOf (.tag (.name "a") : Selector .standard)
          [(.child, .tag (.name "b")),
            (.descendant, .tag (.name "c"))]).accepts
        ⟨nestedTree, .root, {}⟩ (.path [0, 0, 0]) = true := by
  have hWithin : (Node.path [0, 0, 0]).IsWithin .root := by decide
  have hMiddle :
      (.tag (.name "b") : Selector .standard).accepts ⟨nestedTree, .root, {}⟩
        (.path [0]) = true := by decide
  have hLast :
      (.tag (.name "c") : Selector .standard).accepts ⟨nestedTree, .root, {}⟩
        (.path [0, 0, 0]) = true := by decide
  have hBelow : (Node.path [0, 0, 0]).IsBelow (.path [0]) := by decide
  refine ⟨hWithin, (accepts_chainOf_iff_exists_route _ _
    ⟨nestedTree, .root, {}⟩ _ hWithin).2 ?_⟩
  refine ⟨fun i => [.root, .path [0]].getD i (.path [0, 0, 0]),
    rfl, ?_, ?_, ?_⟩
  · intro i _
    rcases i with _ | _ | i
    · exact .inl rfl
    · exact .inr (List.mem_singleton.2 rfl)
    · exact hWithin
  · decide
  · intro i hBound
    rcases i with _ | _ | i
    · have hOther : Node.path [0] ≠ .root := by decide
      exact ⟨hOther, hMiddle, rfl⟩
    · have hOther : Node.path [0, 0, 0] ≠ .root := by decide
      exact ⟨hOther, hLast, hBelow⟩
    · exact absurd hBound (by simp)

end Selector

end TreeQuery
