import TreeQuery.Proofs.Selector.Route
import TreeQuery.Proofs.Tree.Detached

/-
  Matching in a subtree.

  A selector that is run from a node reads nothing outside the
  subtree of that node, except that position tests look at the
  parent of the node itself.  So it matches in a subtree that
  is a tree of its own what it matches in the whole tree.

  Every node that is tested is the scope or below it: a
  combinator and an index refuse the scope itself before they
  look at what is above or beside it, and a test of
  descendants makes the node the scope.

  Key definitions include:
    * `Selector.isPositionFree`

  Main statements:
    * `Combinator.origins_under`
    * `Selector.accepts_under`
-/

namespace TreeQuery

variable {E : Engine}

------------------------------------------------------------
-- Position Tests
------------------------------------------------------------

namespace Selector

mutual

/-
  No position among the siblings is tested, neither by the
  selector nor by one inside of it.
-/
def isPositionFree : Selector E → Bool
| .position _ _ | .onlyChild | .onlyOfType => false
| .index _ _ candidate => candidate.isPositionFree
| .compound parts => areAllPositionFree parts
| .group branches => areAllPositionFree branches
| .not inner => inner.isPositionFree
| .is inner => inner.isPositionFree
| .has inner => inner.isPositionFree
| .combine _ left right => left.isPositionFree && right.isPositionFree
| _ => true

/- No selector of several tests a position. -/
def areAllPositionFree : List (Selector E) → Bool
| [] => true
| s :: rest => s.isPositionFree && areAllPositionFree rest

end

end Selector

------------------------------------------------------------
-- What Is Read of a Node
------------------------------------------------------------

section Detached

variable {t sub : Tree} {steps : List Nat}

variable (h : t.subtree? steps = some sub)

include h

theorem TagSelector.accepts_under (test : TagSelector) (n : Node) :
    test.accepts t (n.under steps) = test.accepts sub n := by
  rw [TagSelector.accepts, TagSelector.accepts, Tree.name?_under h]

theorem Tree.id?_under (n : Node) :
    t.id? (n.under steps) = sub.id? n :=
  attributeValue?_under h n "id"

theorem Tree.hasClass_under (n : Node) (name : String) :
    t.hasClass (n.under steps) name = sub.hasClass n name := by
  rw [hasClass, hasClass, attributeValue?_under h]

theorem Tree.isEmptyNode_under (n : Node) :
    t.isEmptyNode (n.under steps) = sub.isEmptyNode n := by
  simp only [isEmptyNode, children_under h, List.all_map,
    Function.comp_def, kind?_under h]

theorem TextSource.read_under (source : TextSource) (n : Node) :
    source.read t (n.under steps) = source.read sub n := by
  cases source with
  | text =>
      simp only [read, Tree.textOf, Tree.wholeText,
        Tree.stringValue_under h]
  | own => simp only [read, Tree.ownText, Tree.wholeOwnText_under h]
  | whole => simp only [read, Tree.wholeText, Tree.stringValue_under h]
  | wholeOwn => exact Tree.wholeOwnText_under h n

theorem TextSource.contains_under
    (source : TextSource)
    (needle : String)
    (n : Node) :
    source.contains needle t (n.under steps) =
      source.contains needle sub n := by
  rw [contains, contains, read_under h]

------------------------------------------------------------
-- Positions
------------------------------------------------------------

section Place

/- The subtree stands where no position can be tested. -/
variable (hPlace : t.elementParent? (.path steps) = none)

include hPlace

theorem Tree.elementParent?_under (n : Node) :
    t.elementParent? (n.under steps) =
      (sub.elementParent? n).map (Node.under steps) := by
  by_cases hRoot : n = .root
  · rw [hRoot, Node.under_root, hPlace]
    rfl
  · rw [elementParent?, elementParent?, Node.parent?_under hRoot]
    cases n.parent? with
    | none => rfl
    | some p =>
        simp only [Option.map_some, Option.filter_some, isElement_under h]
        cases sub.isElement p with
        | true => rfl
        | false => rfl

omit hPlace in
theorem Position.of?_under (kind : Position) (n p : Node) :
    kind.of? t (n.under steps) (p.under steps) = kind.of? sub n p := by
  have hHere :
      (fun m => m == n.under steps) ∘ Node.under steps =
        fun m => m == n :=
    funext fun m => Node.under_beq steps m n
  have hTag :
      (fun m => t.tag? m == sub.tag? n) ∘ Node.under steps =
        fun m => sub.tag? m == sub.tag? n := by
    funext m
    simp only [Function.comp_apply, Tree.tag?_under h]
  simp only [of?, Tree.elementChildren_under h, Tree.tag?_under h,
    List.findIdx?_map, hHere, List.length_map, ← List.map_take,
    ← List.map_drop, List.countP_map, hTag]

theorem Position.holds_under
    (kind : Position)
    (formula : Formula)
    (n : Node) :
    kind.holds formula t (n.under steps) = kind.holds formula sub n := by
  rw [holds, holds, Tree.elementParent?_under h hPlace]
  cases sub.elementParent? n with
  | none => rfl
  | some p =>
      simp only [Option.map_some, Option.bind_some, Position.of?_under h]

theorem Tree.isOnlyChild_under (n : Node) :
    t.isOnlyChild (n.under steps) = sub.isOnlyChild n := by
  rw [isOnlyChild, isOnlyChild, elementParent?_under h hPlace]
  cases sub.elementParent? n with
  | none => rfl
  | some p =>
      simp only [Option.map_some, Option.any_some,
        elementChildren_under h, List.length_map]

theorem Tree.isOnlyOfType_under (n : Node) :
    t.isOnlyOfType (n.under steps) = sub.isOnlyOfType n := by
  rw [isOnlyOfType, isOnlyOfType, elementParent?_under h hPlace]
  cases sub.elementParent? n with
  | none => rfl
  | some p =>
      simp only [Option.map_some, Option.any_some,
        elementChildren_under h, List.countP_map, Function.comp_def,
        tag?_under h]

end Place

------------------------------------------------------------
-- Scopes and Combinators
------------------------------------------------------------

theorem Context.isRoot_under
    (options : Options)
    (scope n : Node) :
    Context.isRoot ⟨t, scope.under steps, options⟩ (n.under steps) =
      Context.isRoot ⟨sub, scope, options⟩ n := by
  have hFirst :
      (((sub.elementChildren scope).map (Node.under steps)).head? ==
          some (n.under steps)) =
        ((sub.elementChildren scope).head? == some n) := by
    rw [List.head?_map]
    cases (sub.elementChildren scope).head? with
    | none => rfl
    | some m => exact Node.under_beq steps m n
  simp only [isRoot, Tree.kind?_under h, Tree.elementChildren_under h,
    hFirst, Node.under_beq]

/- The index is the same if the candidates below the scope are. -/
theorem Context.candidateIndex?_under
    (options : Options)
    {scope n : Node}
    {p q : Node → Bool}
    (hSame : ∀ m : Node, m.IsWithin scope → p (m.under steps) = q m)
    (hWithin : n.IsWithin scope) :
    Context.candidateIndex? ⟨t, scope.under steps, options⟩ p
        (n.under steps) =
      Context.candidateIndex? ⟨sub, scope, options⟩ q n := by
  by_cases hScope : n = scope
  · simp [candidateIndex?, hScope]
  · have hBelow := hWithin.resolve_left hScope
    have hCount :
        (t.precedingElements (n.under steps)).countP p =
          (sub.precedingElements n).countP q := by
      rw [Tree.precedingElements_under h hBelow.ne_root, List.countP_map]
      apply List.countP_congr
      intro m hMem
      have hInside := (Tree.isBelow_of_mem_precedingElements hMem hBelow).1
      rw [Function.comp_apply, hSame m (.inr hInside)]
    simp only [candidateIndex?, Node.under_bne, hSame n hWithin, hCount]

omit h in
theorem takeThrough_map_under
    (scope : Node)
    (ns : List Node) :
    takeThrough (· == scope.under steps) (ns.map (Node.under steps)) =
      (takeThrough (· == scope) ns).map (Node.under steps) := by
  induction ns with
  | nil => rfl
  | cons n ns ih =>
      simp only [List.map_cons, takeThrough, Node.under_beq, ih]
      split
      · rfl
      · rfl

/- Where the search has ended, what comes later does not matter. -/
omit h in
theorem takeThrough_append
    {p : Node → Bool}
    {ns : List Node}
    (hEnds : ∃ n ∈ ns, p n = true)
    (later : List Node) :
    takeThrough p (ns ++ later) = takeThrough p ns := by
  induction ns with
  | nil => simp at hEnds
  | cons n ns ih =>
      rw [List.cons_append, takeThrough, takeThrough]
      by_cases hHere : p n = true
      · rw [if_pos hHere, if_pos hHere]
      · rw [if_neg hHere, if_neg hHere, ih]
        rcases hEnds with ⟨m, hMem, hLast⟩
        rcases List.mem_cons.1 hMem with rfl | hMem
        · exact absurd hLast hHere
        · exact ⟨m, hMem, hLast⟩

/- Below the scope, the nodes for a left operand correspond. -/
theorem Combinator.origins_under
    (c : Combinator)
    (options : Options)
    {scope n : Node}
    (hBelow : n.IsBelow scope) :
    c.origins ⟨t, scope.under steps, options⟩ (n.under steps) =
      (c.origins ⟨sub, scope, options⟩ n).map (Node.under steps) := by
  cases c with
  | descendant =>
      have hEnds :
          ∃ m ∈ n.ancestors.map (Node.under steps),
            (m == scope.under steps) = true :=
        ⟨scope.under steps, List.mem_map_of_mem hBelow, by simp⟩
      rw [origins, origins, Node.ancestors_under,
        takeThrough_append hEnds, takeThrough_map_under]
  | child =>
      rw [origins, origins, Node.parent?_under hBelow.ne_root]
      exact Option.toList_map
  | adjacent =>
      rw [origins, origins, Tree.previousElement?_under h hBelow.ne_root]
      exact Option.toList_map
  | sibling =>
      exact Tree.precedingElements_under h hBelow.ne_root

------------------------------------------------------------
-- Matching
------------------------------------------------------------

namespace Selector

/- A combinator matches alike if both of its operands do. -/
theorem accepts_combine_under
    (options : Options)
    (c : Combinator)
    {left right : Selector E}
    {scope : Node}
    (hLeft :
      ∀ m : Node, m.IsWithin scope →
        left.accepts ⟨t, scope.under steps, options⟩ (m.under steps) =
          left.accepts ⟨sub, scope, options⟩ m)
    {n : Node}
    (hWithin : n.IsWithin scope)
    (hRight :
      right.accepts ⟨t, scope.under steps, options⟩ (n.under steps) =
        right.accepts ⟨sub, scope, options⟩ n) :
    (Selector.combine c left right).accepts
        ⟨t, scope.under steps, options⟩ (n.under steps) =
      (Selector.combine c left right).accepts
        ⟨sub, scope, options⟩ n := by
  simp only [accepts, Tree.isElement_under h, Node.under_bne, hRight]
  by_cases hCandidate :
      (sub.isElement n && n != scope) = true
  · rw [Bool.and_eq_true, bne_iff_ne] at hCandidate
    have hBelow := hWithin.resolve_left hCandidate.2
    have hOrigins :
        (c.origins ⟨t, scope.under steps, options⟩ (n.under steps)).any
            (left.accepts ⟨t, scope.under steps, options⟩) =
          (c.origins ⟨sub, scope, options⟩ n).any
            (left.accepts ⟨sub, scope, options⟩) := by
      rw [Combinator.origins_under h c options hBelow, List.any_map,
        Bool.eq_iff_iff, List.any_eq_true, List.any_eq_true]
      refine exists_congr fun m => and_congr_right fun hMem => ?_
      have hInside :=
        ((Combinator.mem_origins_iff hCandidate.1 hBelow).1 hMem).1
      rw [Function.comp_apply, hLeft m hInside]
    rw [hOrigins]
  · rw [Bool.eq_false_iff.2 hCandidate, Bool.false_and, Bool.false_and,
      Bool.false_and]

end Selector

end Detached

namespace Selector

mutual

/-
  A selector matches a node from the scope on in the subtree
  exactly if it matches the node in the whole tree, provided
  that it tests no position or that none can be tested at the
  place of the subtree.
-/
theorem accepts_under
    {t sub : Tree}
    {steps : List Nat}
    (h : t.subtree? steps = some sub)
    (s : Selector E)
    (hPosition :
      s.isPositionFree = true ∨ t.elementParent? (.path steps) = none)
    (options : Options)
    {scope n : Node}
    (hWithin : n.IsWithin scope) :
    s.accepts ⟨t, scope.under steps, options⟩ (n.under steps) =
      s.accepts ⟨sub, scope, options⟩ n := by
  cases s with
  | universal => simp only [accepts, Tree.isElement_under h]
  | tag test =>
      simp only [accepts, Tree.isElement_under h,
        TagSelector.accepts_under h]
  | id value =>
      simp only [accepts, Tree.isElement_under h, Tree.id?_under h]
  | className name =>
      simp only [accepts, Tree.isElement_under h, Tree.hasClass_under h]
  | attr name test =>
      simp only [accepts, Tree.isElement_under h,
        Tree.attributeValue?_under h]
  | attrStarting start =>
      simp only [accepts, Tree.isElement_under h,
        Tree.hasAttributeStarting_under h]
  | root =>
      simp only [accepts, Tree.isElement_under h, Context.isRoot_under h]
  | scope => simp only [accepts, Node.under_beq]
  | empty =>
      simp only [accepts, Tree.isElement_under h, Tree.isEmptyNode_under h]
  | containsText source needle =>
      simp only [accepts, Tree.isElement_under h,
        TextSource.contains_under h]
  | matchesText source pattern =>
      simp only [accepts, Tree.isElement_under h, TextSource.read_under h]
  | position kind formula =>
      have hPlace := hPosition.resolve_left (by simp [isPositionFree])
      simp only [accepts, Tree.isElement_under h,
        Position.holds_under h hPlace]
  | onlyChild =>
      have hPlace := hPosition.resolve_left (by simp [isPositionFree])
      simp only [accepts, Tree.isElement_under h,
        Tree.isOnlyChild_under h hPlace]
  | onlyOfType =>
      have hPlace := hPosition.resolve_left (by simp [isPositionFree])
      simp only [accepts, Tree.isElement_under h,
        Tree.isOnlyOfType_under h hPlace]
  | index test k candidate =>
      have hIndex := Context.candidateIndex?_under h options
        (fun m hInside => accepts_under h candidate hPosition options hInside)
        hWithin
      simp only [accepts, Tree.isElement_under h, hIndex]
  | compound parts =>
      simp only [accepts, Tree.isElement_under h,
        acceptsAll_under h parts hPosition options hWithin]
  | group branches =>
      simp only [accepts, Tree.isElement_under h,
        acceptsAny_under h branches hPosition options hWithin]
  | not inner =>
      simp only [accepts, Tree.isElement_under h,
        accepts_under h inner hPosition options hWithin]
  | is inner =>
      simp only [accepts, Tree.isElement_under h,
        accepts_under h inner hPosition options hWithin]
  | has inner =>
      -- The node becomes the scope of what is tested below it.
      have hInner :
          ∀ m : Node, m.IsBelow n →
            inner.accepts ⟨t, n.under steps, options⟩ (m.under steps) =
              inner.accepts ⟨sub, n, options⟩ m := fun m hBelow =>
        accepts_under h inner hPosition options (.inr hBelow)
      simp only [accepts, Tree.isElement_under h, Context.within,
        Tree.anyElementBelow_under h hInner]
  | combine c left right =>
      rw [isPositionFree, Bool.and_eq_true] at hPosition
      have hLeft := hPosition.imp_left And.left
      have hRight := hPosition.imp_left And.right
      exact accepts_combine_under h options c
        (fun m hInside => accepts_under h left hLeft options hInside)
        hWithin (accepts_under h right hRight options hWithin)

/- So do all parts of a compound. -/
theorem acceptsAll_under
    {t sub : Tree}
    {steps : List Nat}
    (h : t.subtree? steps = some sub)
    (parts : List (Selector E))
    (hPosition :
      areAllPositionFree parts = true ∨
        t.elementParent? (.path steps) = none)
    (options : Options)
    {scope n : Node}
    (hWithin : n.IsWithin scope) :
    acceptsAll parts ⟨t, scope.under steps, options⟩ (n.under steps) =
      acceptsAll parts ⟨sub, scope, options⟩ n := by
  cases parts with
  | nil => rfl
  | cons part parts =>
      rw [areAllPositionFree, Bool.and_eq_true] at hPosition
      have hPart := hPosition.imp_left And.left
      have hParts := hPosition.imp_left And.right
      rw [acceptsAll, acceptsAll, accepts_under h part hPart options hWithin,
        acceptsAll_under h parts hParts options hWithin]

/- So does any branch of a group. -/
theorem acceptsAny_under
    {t sub : Tree}
    {steps : List Nat}
    (h : t.subtree? steps = some sub)
    (branches : List (Selector E))
    (hPosition :
      areAllPositionFree branches = true ∨
        t.elementParent? (.path steps) = none)
    (options : Options)
    {scope n : Node}
    (hWithin : n.IsWithin scope) :
    acceptsAny branches ⟨t, scope.under steps, options⟩ (n.under steps) =
      acceptsAny branches ⟨sub, scope, options⟩ n := by
  cases branches with
  | nil => rfl
  | cons branch branches =>
      rw [areAllPositionFree, Bool.and_eq_true] at hPosition
      have hBranch := hPosition.imp_left And.left
      have hBranches := hPosition.imp_left And.right
      rw [acceptsAny, acceptsAny,
        accepts_under h branch hBranch options hWithin,
        acceptsAny_under h branches hBranches options hWithin]

end

end Selector

end TreeQuery
