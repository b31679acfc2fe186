import TreeQuery.Tree.Basic

/-
  Walks through a tree in document order.

  A walk keeps a list of nodes to visit.  It visits the first
  one and puts those of its children that are to be followed
  in its place, until the visitor ends the walk or no node is
  left.

  Key definitions include:
    * `Tree.walk`
    * `Tree.descendantsOrSelf`
    * `Tree.walkElements`
    * `Tree.anyElementBelow`
-/

namespace TreeQuery.Tree

------------------------------------------------------------
-- Walks
------------------------------------------------------------

/- Leaving nodes out makes a list no heavier. -/
theorem pending_filter_le
    (t : Tree)
    (follow : Node → Bool)
    (ns : List Node) :
    t.pending (ns.filter follow) ≤ t.pending ns := by
  induction ns with
  | nil => simp
  | cons n ns ih =>
      by_cases h : follow n = true
      · simp only [pending, List.filter_cons_of_pos h]
        omega
      · simp only [pending, List.filter_cons_of_neg h]
        omega

/- Going on from a node to its children makes a list lighter. -/
theorem pending_step_lt
    (t : Tree)
    (follow : Node → Bool)
    (n : Node)
    (stack : List Node) :
    t.pending ((t.children n).filter follow ++ stack) <
      t.pending (n :: stack) := by
  have hFilter := t.pending_filter_le follow (t.children n)
  have hChildren := t.pending_children_lt n
  rw [pending_append, pending]
  omega

/-
  Visit the nodes of a list and the followed nodes below
  them, with a state that the visitor changes.
-/
def walk
    {σ : Type}
    (t : Tree)
    (follow : Node → Bool)
    (visit : σ → Node → ForInStep σ)
    (state : σ) : List Node → σ
| [] => state
| n :: stack =>
    match visit state n with
    | .done state => state
    | .yield state =>
        walk t follow visit state
          ((t.children n).filter follow ++ stack)
termination_by stack => t.pending stack
decreasing_by exact t.pending_step_lt follow n stack

------------------------------------------------------------
-- Node Lists
------------------------------------------------------------

/-
  The node and all nodes below it in document order,
  attributes apart.
-/
def descendantsOrSelf (t : Tree) (n : Node) : List Node :=
  t.walk (fun _ => true) (fun found m => .yield (found ++ [m])) [] [n]

------------------------------------------------------------
-- Elements
------------------------------------------------------------

/- A walk from a node that goes on to element children only. -/
def walkElements
    {σ : Type}
    (t : Tree)
    (visit : σ → Node → ForInStep σ)
    (state : σ)
    (n : Node) : σ :=
  t.walk t.isElement visit state [n]

/-
  Some element below the node, reached through elements,
  satisfies `p`.  The walk ends at the first one.
-/
def anyElementBelow (t : Tree) (n : Node) (p : Node → Bool) : Bool :=
  t.walk t.isElement
    (fun _ m => if p m then .done true else .yield false)
    false (t.elementChildren n)

end TreeQuery.Tree
