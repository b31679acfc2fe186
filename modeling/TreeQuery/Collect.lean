import TreeQuery.Selector.Matching
import TreeQuery.Tree.NodeSet

/-
  Collecting the elements that a selector matches.

  A collection starts at a root, which is its scope, and goes
  on through element children in document order.

  Key definitions include:
    * `Selector.collect`
    * `Selector.collectAll`
    * `Selector.collectFirst?`
-/

namespace TreeQuery.Selector

variable {E : Engine}

/- A node may be in the result, whatever the selector. -/
def eligible (t : Tree) (options : Options) (root n : Node) : Bool :=
  t.isElement n && (options.includeRoot || n != root)

/- A node belongs to the result of a collection. -/
def selects
    (s : Selector E)
    (t : Tree)
    (options : Options)
    (root n : Node) : Bool :=
  eligible t options root n && s.accepts ⟨t, root, options⟩ n

/- Add the matching elements from a root on to a set. -/
def collectInto
    (s : Selector E)
    (t : Tree)
    (options : Options)
    (found : NodeSet)
    (root : Node) : NodeSet :=
  t.walkElements
    (fun found n =>
      .yield
        (if s.selects t options root n then found.insert n else found))
    found root

/- The matching elements from a root on, in document order. -/
def collect
    (s : Selector E)
    (t : Tree)
    (options : Options)
    (root : Node) : List Node :=
  (s.collectInto t options .empty root).toList

/-
  The matching elements from several roots on, root by root,
  each element where it is found first.
-/
def collectAll
    (s : Selector E)
    (t : Tree)
    (options : Options)
    (roots : List Node) : List Node :=
  (roots.foldl (s.collectInto t options) .empty).toList

/- The first matching element.  The collection ends there. -/
def collectFirst?
    (s : Selector E)
    (t : Tree)
    (options : Options)
    (root : Node) : Option Node :=
  t.walkElements
    (fun _ n =>
      if s.selects t options root n then .done (some n) else .yield none)
    none root

end TreeQuery.Selector
