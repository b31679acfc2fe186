import Std.Data.HashSet
import TreeQuery.Tree.Basic

/-
  Sets of nodes that keep the order of insertion.

  An index tells quickly whether a node is in the set; an
  array holds the nodes in the order in which they came.

  Key definitions include:
    * `NodeSet`
    * `NodeSet.insert`
    * `NodeSet.extend`
    * `NodeSet.ofList`
    * `NodeSet.toList`
-/

namespace TreeQuery

/- A set of nodes in the order of their first insertion. -/
structure NodeSet where
  index : Std.HashSet Node
  nodes : Array Node

namespace NodeSet

/- The set without nodes. -/
def empty : NodeSet :=
  ⟨∅, #[]⟩

/- A node is in the set. -/
def contains (s : NodeSet) (n : Node) : Bool :=
  s.index.contains n

/-
  The set with a node, and whether it is new.  A node that is
  in the set already keeps its place.
-/
def insertNew (s : NodeSet) (n : Node) : Bool × NodeSet :=
  if s.index.contains n then (false, s)
  else (true, ⟨s.index.insert n, s.nodes.push n⟩)

/- The set with a node. -/
def insert (s : NodeSet) (n : Node) : NodeSet :=
  (s.insertNew n).2

/- The set with several nodes, inserted in order. -/
def extend (s : NodeSet) (ns : List Node) : NodeSet :=
  ns.foldl insert s

/- The set of the nodes of a list. -/
def ofList (ns : List Node) : NodeSet :=
  empty.extend ns

/- The number of nodes. -/
def size (s : NodeSet) : Nat :=
  s.nodes.size

/- The set has no nodes. -/
def isEmpty (s : NodeSet) : Bool :=
  s.nodes.isEmpty

/- The nodes in the order of their first insertion. -/
def toList (s : NodeSet) : List Node :=
  s.nodes.toList

end NodeSet

end TreeQuery
