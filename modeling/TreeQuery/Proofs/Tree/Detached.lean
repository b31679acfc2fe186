import TreeQuery.Proofs.Tree.Siblings
import TreeQuery.Tree.Content

/-
  A subtree as a tree of its own.

  The nodes of a subtree correspond to the nodes of the tree
  at and below its place: their paths are longer by the path
  of that place.  What is read of such a node, of its children
  and attributes and of all that is below it, is the same in
  both trees; its parent and its siblings correspond unless
  the node is at the place itself.

  Key definitions include:
    * `Node.under`

  Main statements:
    * `Tree.preorder_under`
    * `Tree.precedingElements_under`
    * `Tree.stringValue_under`
    * `Tree.anyElementBelow_under`
-/

namespace TreeQuery

------------------------------------------------------------
-- Corresponding Nodes
------------------------------------------------------------

namespace Node

/- The node of a tree that a node of the subtree at a path is. -/
def under (steps : List Nat) : Node → Node
| .path below => .path (below ++ steps)
| .attr owner index => .attr (owner ++ steps) index

@[simp]
theorem under_root (steps : List Nat) :
    root.under steps = .path steps :=
  rfl

theorem under_injective (steps : List Nat) :
    Function.Injective (under steps) := by
  intro m n h
  cases m with
  | path below =>
      cases n with
      | path below' => simpa [under] using h
      | attr owner index => simp [under] at h
  | attr owner index =>
      cases n with
      | path below => simp [under] at h
      | attr owner' index' => simpa [under] using h

theorem under_eq_under_iff
    {steps : List Nat}
    {m n : Node} :
    m.under steps = n.under steps ↔ m = n :=
  (under_injective steps).eq_iff

/- Tests for a node are tests for the node that corresponds. -/
theorem under_beq
    (steps : List Nat)
    (m n : Node) :
    (m.under steps == n.under steps) = (m == n) := by
  rw [Bool.eq_iff_iff, beq_iff_eq, beq_iff_eq, under_eq_under_iff]

theorem under_bne
    (steps : List Nat)
    (m n : Node) :
    (m.under steps != n.under steps) = (m != n) := by
  rw [bne, bne, under_beq]

/- Parents correspond, except that the root has none. -/
theorem parent?_under
    {steps : List Nat}
    {n : Node}
    (h : n ≠ root) :
    (n.under steps).parent? = n.parent?.map (under steps) := by
  rcases n with (_ | ⟨i, below⟩) | ⟨owner, index⟩
  · exact absurd rfl h
  · rfl
  · rfl

theorem above_append (below steps : List Nat) :
    above (below ++ steps) =
      (above below).map (under steps) ++ above steps := by
  induction below with
  | nil => rfl
  | cons i below ih =>
      rw [List.cons_append, above, ih]
      rfl

/- What is above the place of the subtree comes last. -/
theorem ancestors_under
    (steps : List Nat)
    (n : Node) :
    (n.under steps).ancestors =
      n.ancestors.map (under steps) ++ above steps := by
  cases n with
  | path below => exact above_append below steps
  | attr owner index =>
      have hAbove := above_append owner steps
      simp only [under, ancestors, hAbove, List.map_cons, List.cons_append]

/- A node that is below another one is not the root. -/
theorem IsBelow.ne_root
    {n scope : Node}
    (h : n.IsBelow scope) :
    n ≠ root := by
  rintro rfl
  simp [IsBelow, ancestors, root, above] at h

/- All nodes of a tree are its root or below it. -/
theorem isWithin_root (n : Node) : n.IsWithin root := by
  have hAbove : ∀ i below, root ∈ above (i :: below) := by
    intro i below
    induction below generalizing i with
    | nil => exact List.mem_singleton.2 rfl
    | cons j below ih => exact List.mem_cons_of_mem _ (ih j)
  rcases n with (_ | ⟨i, below⟩) | ⟨owner, index⟩
  · exact .inl rfl
  · exact .inr (hAbove i below)
  · exact .inr (hAbove index owner)

end Node

namespace Tree

/- What a child leads to is below the parent. -/
theorem isBelow_of_leads
    {t : Tree}
    {follow : Node → Bool}
    {n c m : Node}
    (hChild : c ∈ t.children n)
    (hLeads : t.Leads follow c m) :
    m.IsBelow n := by
  rcases mem_children_iff.1 hChild with ⟨steps, _, i, rfl, _, _, rfl⟩
  rcases hLeads.exists_path with ⟨further, rfl⟩
  have hAbove := Node.above_append further (i :: steps)
  rw [Node.IsBelow, Node.ancestors, hAbove, Node.above]
  simp

theorem subtree?_append
    (t : Tree)
    (below steps : List Nat) :
    t.subtree? (below ++ steps) =
      (t.subtree? steps).bind (·.subtree? below) := by
  induction below with
  | nil => cases h : t.subtree? steps <;> simp [h, subtree?]
  | cons i below ih =>
      rw [List.cons_append, subtree?, ih]
      cases t.subtree? steps <;> rfl

section Detached

variable {t sub : Tree} {steps : List Nat}

variable (h : t.subtree? steps = some sub)

include h

theorem subtree?_under (below : List Nat) :
    t.subtree? (below ++ steps) = sub.subtree? below := by
  rw [subtree?_append, h, Option.bind_some]

theorem attribute?_under (owner : List Nat) (index : Nat) :
    t.attribute? (owner ++ steps) index = sub.attribute? owner index := by
  rw [attribute?, attribute?, subtree?_under h]

------------------------------------------------------------
-- Nodes by Themselves
------------------------------------------------------------

theorem kind?_under (n : Node) :
    t.kind? (n.under steps) = sub.kind? n := by
  cases n with
  | path below => simp only [Node.under, kind?, subtree?_under h]
  | attr owner index => simp only [Node.under, kind?, attribute?_under h]

theorem isElement_under (n : Node) :
    t.isElement (n.under steps) = sub.isElement n := by
  rw [isElement, isElement, kind?_under h]

theorem name?_under (n : Node) :
    t.name? (n.under steps) = sub.name? n := by
  cases n with
  | path below => simp only [Node.under, name?, subtree?_under h]
  | attr owner index => simp only [Node.under, name?, attribute?_under h]

theorem tag?_under (n : Node) :
    t.tag? (n.under steps) = sub.tag? n := by
  rw [tag?, tag?, name?_under h]

theorem textPart?_under (n : Node) :
    t.textPart? (n.under steps) = sub.textPart? n := by
  cases n with
  | path below => simp only [Node.under, textPart?, subtree?_under h]
  | attr owner index => rfl

------------------------------------------------------------
-- Children and Attributes
------------------------------------------------------------

theorem children_under (n : Node) :
    t.children (n.under steps) =
      (sub.children n).map (Node.under steps) := by
  cases n with
  | attr owner index => rfl
  | path below =>
      simp only [Node.under, children, subtree?_under h]
      cases sub.subtree? below with
      | none => rfl
      | some s => simp [Node.under]

theorem attributes_under (n : Node) :
    t.attributes (n.under steps) =
      (sub.attributes n).map (Node.under steps) := by
  cases n with
  | attr owner index => rfl
  | path below =>
      simp only [Node.under, attributes, subtree?_under h]
      cases sub.subtree? below with
      | none => rfl
      | some s => simp [Node.under]

theorem filter_isElement_under (ns : List Node) :
    (ns.map (Node.under steps)).filter t.isElement =
      (ns.filter sub.isElement).map (Node.under steps) := by
  rw [List.filter_map]
  congr 1
  apply List.filter_congr
  intro n _
  exact isElement_under h n

theorem elementChildren_under (n : Node) :
    t.elementChildren (n.under steps) =
      (sub.elementChildren n).map (Node.under steps) := by
  rw [elementChildren, children_under h, filter_isElement_under h]
  rfl

/- Siblings correspond, except those of the root. -/
theorem precedingElements_under
    {n : Node}
    (hBelow : n ≠ .root) :
    t.precedingElements (n.under steps) =
      (sub.precedingElements n).map (Node.under steps) := by
  rw [precedingElements, precedingElements, Node.parent?_under hBelow]
  cases n.parent? with
  | none => rfl
  | some p =>
      simp only [Option.map_some, elementChildren_under h,
        List.takeWhile_map, List.map_reverse]
      congr 3
      funext m
      exact Node.under_bne steps m n

theorem previousElement?_under
    {n : Node}
    (hBelow : n ≠ .root) :
    t.previousElement? (n.under steps) =
      (sub.previousElement? n).map (Node.under steps) := by
  rw [previousElement?, previousElement?,
    precedingElements_under h hBelow, List.head?_map]

------------------------------------------------------------
-- All That Is Below
------------------------------------------------------------

theorem preorder_under
    {follow follow' : Node → Bool}
    (hFollow : ∀ n, follow (n.under steps) = follow' n)
    (n : Node) :
    t.preorder follow (n.under steps) =
      (sub.preorder follow' n).map (Node.under steps) := by
  induction n using sub.node_induction with
  | step n ih =>
      have hKept :
          ((sub.children n).map (Node.under steps)).filter follow =
            ((sub.children n).filter follow').map (Node.under steps) := by
        rw [List.filter_map]
        congr 1
        exact List.filter_congr fun m _ => hFollow m
      rw [preorder_eq, preorder_eq sub, children_under h, hKept,
        List.map_cons, List.map_flatMap, List.flatMap_map]
      congr 1
      apply List.flatMap_congr
      intro c hMem
      exact ih c (List.mem_filter.1 hMem).1

theorem descendantsOrSelf_under (n : Node) :
    t.descendantsOrSelf (n.under steps) =
      (sub.descendantsOrSelf n).map (Node.under steps) := by
  rw [descendantsOrSelf_eq_preorder, descendantsOrSelf_eq_preorder]
  exact preorder_under h (fun _ => rfl) n

/- Elements below with a property correspond. -/
theorem anyElementBelow_under
    {p q : Node → Bool}
    {n : Node}
    (hSame : ∀ m : Node, m.IsBelow n → p (m.under steps) = q m) :
    t.anyElementBelow (n.under steps) p = sub.anyElementBelow n q := by
  have hNodes :
      (t.elementChildren (n.under steps)).flatMap
          (t.preorder t.isElement) =
        ((sub.elementChildren n).flatMap
          (sub.preorder sub.isElement)).map (Node.under steps) := by
    rw [elementChildren_under h, List.map_flatMap, List.flatMap_map]
    apply List.flatMap_congr
    intro c _
    exact preorder_under h (isElement_under h) c
  rw [anyElementBelow_eq_any, anyElementBelow_eq_any, hNodes,
    List.any_map, Bool.eq_iff_iff, List.any_eq_true, List.any_eq_true]
  refine exists_congr fun m => and_congr_right fun hMem => ?_
  rcases List.mem_flatMap.1 hMem with ⟨c, hChild, hReached⟩
  have hBelow := isBelow_of_leads (List.mem_filter.1 hChild).1
    (mem_preorder_iff.1 hReached)
  rw [Function.comp_apply, hSame m hBelow]

theorem stringValue_under (n : Node) :
    t.stringValue (n.under steps) = sub.stringValue n := by
  cases n with
  | attr owner index =>
      simp only [Node.under, stringValue, attribute?_under h]
  | path below =>
      have hTexts :
          (t.descendantsOrSelf (.path (below ++ steps))).filterMap
              t.textPart? =
            (sub.descendantsOrSelf (.path below)).filterMap
              sub.textPart? := by
        have hNodes := descendantsOrSelf_under h (.path below)
        rw [Node.under] at hNodes
        rw [hNodes, List.filterMap_map]
        congr 1
        funext m
        exact textPart?_under h m
      simp only [Node.under, stringValue, subtree?_under h, hTexts]

theorem wholeOwnText_under (n : Node) :
    t.wholeOwnText (n.under steps) = sub.wholeOwnText n := by
  have hTexts : t.textPart? ∘ Node.under steps = sub.textPart? :=
    funext (textPart?_under h)
  rw [wholeOwnText, wholeOwnText, children_under h, List.filterMap_map,
    hTexts]

------------------------------------------------------------
-- Values of Attributes
------------------------------------------------------------

theorem attributeValue?_under (n : Node) (name : String) :
    t.attributeValue? (n.under steps) name =
      sub.attributeValue? n name := by
  have hNamed :
      (fun a => (t.name? a).any (·.isWritten name)) ∘ Node.under steps =
        fun a => (sub.name? a).any (·.isWritten name) := by
    funext a
    simp only [Function.comp_apply, name?_under h]
  have hValue : t.stringValue ∘ Node.under steps = sub.stringValue :=
    funext (stringValue_under h)
  simp only [attributeValue?, attributes_under h, List.find?_map, hNamed,
    Option.map_map, hValue]

theorem hasAttributeStarting_under (n : Node) (start : String) :
    t.hasAttributeStarting (n.under steps) start =
      sub.hasAttributeStarting n start := by
  have hName : t.name? ∘ Node.under steps = sub.name? :=
    funext (name?_under h)
  simp only [hasAttributeStarting, attributes_under h,
    List.filterMap_map, hName]

end Detached

end Tree

end TreeQuery
