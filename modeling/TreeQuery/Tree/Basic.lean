import TreeQuery.Tree.Name

/-
  Document trees, and the addresses of nodes in them.

  A tree consists of documents, elements with attributes,
  texts and comments; documents may stand below elements.  A
  node of a tree is the way to it: the positions to take
  among the children, the last one first.  Two nodes are the
  same only if they stand at the same place.

  Attributes stand at their element and nowhere else.  Whoever
  builds a tree by hand could also put an attribute among the
  children of a node; such trees are left out here.

  Key definitions include:
    * `Tree`
    * `Node`
    * `Tree.subtree?`
    * `Tree.kind?`
    * `Tree.children`
    * `Tree.weight`

  Main statement:
    * `Tree.pending_children_lt`
-/

namespace TreeQuery

------------------------------------------------------------
-- Trees
------------------------------------------------------------

/- An attribute of an element. -/
structure Attribute where
  name : Name
  value : String
deriving DecidableEq, Repr

/- Document trees. -/
inductive Tree where
| document (content : List Tree)
| element (name : Name) (attributes : List Attribute) (content : List Tree)
| text (value : String)
| comment (value : String)
deriving Repr

/- The kinds of nodes. -/
inductive Kind where
| document
| element
| attr
| text
| comment
deriving DecidableEq, Repr

/-
  Nodes.  `path` holds the positions on the way from the root
  to the node, the last one first; an attribute is a position
  among the attributes of the node at `owner`.
-/
inductive Node where
| path (steps : List Nat)
| attr (owner : List Nat) (index : Nat)
deriving DecidableEq, Hashable, Repr

namespace Node

/- The root of a tree. -/
def root : Node :=
  .path []

instance : Inhabited Node where
  default := root

/- The node of which this one is a child or an attribute. -/
def parent? : Node → Option Node
| .path [] => none
| .path (_ :: steps) => some (.path steps)
| .attr owner _ => some (.path owner)

/- The nodes on the way up from a path, nearest first. -/
def above : List Nat → List Node
| [] => []
| _ :: steps => .path steps :: above steps

/- The ancestors of a node, its parent first. -/
def ancestors : Node → List Node
| .path steps => above steps
| .attr owner _ => .path owner :: above owner

end Node

namespace Tree

------------------------------------------------------------
-- Subtrees
------------------------------------------------------------

/- The trees below the root. -/
def content : Tree → List Tree
| .document content | .element _ _ content => content
| .text _ | .comment _ => []

/- The attributes of the root. -/
def attributeList : Tree → List Attribute
| .element _ attributes _ => attributes
| .document _ | .text _ | .comment _ => []

/- The name of the root, if it is an element. -/
def rootName? : Tree → Option Name
| .element name _ _ => some name
| .document _ | .text _ | .comment _ => none

/- The kind of the root. -/
def rootKind : Tree → Kind
| .document _ => .document
| .element .. => .element
| .text _ => .text
| .comment _ => .comment

/- The text that the root itself holds. -/
def rootValue : Tree → String
| .text value | .comment value => value
| .document _ | .element .. => ""

/- The subtree at a path. -/
def subtree? (t : Tree) : List Nat → Option Tree
| [] => some t
| i :: steps => (t.subtree? steps).bind fun s => s.content[i]?

/- An attribute of the node at a path. -/
def attribute? (t : Tree) (owner : List Nat) (index : Nat) :
    Option Attribute :=
  (t.subtree? owner).bind fun s => s.attributeList[index]?

------------------------------------------------------------
-- Properties of Nodes
------------------------------------------------------------

/- The kind of a node, if it belongs to the tree. -/
def kind? (t : Tree) : Node → Option Kind
| .path steps => (t.subtree? steps).map rootKind
| .attr owner index =>
    (t.attribute? owner index).map fun _ => .attr

/- A node of the tree is an element. -/
def isElement (t : Tree) (n : Node) : Bool :=
  t.kind? n == some .element

/- The name of an element or attribute. -/
def name? (t : Tree) : Node → Option Name
| .path steps => (t.subtree? steps).bind rootName?
| .attr owner index => (t.attribute? owner index).map (·.name)

/- The name of a node as written, in small ASCII letters. -/
def tag? (t : Tree) (n : Node) : Option String :=
  (t.name? n).map Name.tag

/- The children of a node, in order. -/
def children (t : Tree) : Node → List Node
| .path steps =>
    match t.subtree? steps with
    | some s => s.content.zipIdx.map fun (_, i) => .path (i :: steps)
    | none => []
| .attr .. => []

/- The attributes of a node, in order. -/
def attributes (t : Tree) : Node → List Node
| .path steps =>
    match t.subtree? steps with
    | some s =>
        s.attributeList.zipIdx.map fun (_, i) => .attr steps i
    | none => []
| .attr .. => []

/- The children that are elements, in order. -/
def elementChildren (t : Tree) (n : Node) : List Node :=
  (t.children n).filter t.isElement

------------------------------------------------------------
-- Siblings
------------------------------------------------------------

/- The elements before a node among its siblings, nearest first. -/
def precedingElements (t : Tree) (n : Node) : List Node :=
  match n.parent? with
  | some p => ((t.elementChildren p).takeWhile (· != n)).reverse
  | none => []

/- The nearest element before a node among its siblings. -/
def previousElement? (t : Tree) (n : Node) : Option Node :=
  (t.precedingElements n).head?

/-
  The position of a node among the element children of its
  parent, or zero if it is not among them.
-/
def siblingIndex (t : Tree) (n : Node) : Nat :=
  match n.parent? with
  | some p => ((t.elementChildren p).findIdx? (· == n)).getD 0
  | none => 0

------------------------------------------------------------
-- Sizes
------------------------------------------------------------

mutual

/- The number of nodes of a tree, attributes apart. -/
def size : Tree → Nat
| .document content | .element _ _ content => 1 + totalSize content
| .text _ | .comment _ => 1

/- The number of nodes of several trees. -/
def totalSize : List Tree → Nat
| [] => 0
| t :: ts => t.size + totalSize ts

end

/- The size of the subtree at a node, and one elsewhere. -/
def weight (t : Tree) : Node → Nat
| .path steps =>
    match t.subtree? steps with
    | some s => s.size
    | none => 1
| .attr .. => 1

/- The total size of the subtrees at several nodes. -/
def pending (t : Tree) : List Node → Nat
| [] => 0
| n :: ns => t.weight n + t.pending ns

theorem pending_append (t : Tree) (ms ns : List Node) :
    t.pending (ms ++ ns) = t.pending ms + t.pending ns := by
  induction ms with
  | nil => simp [pending]
  | cons m ms ih =>
      simp only [List.cons_append, pending, ih]
      omega

/- A tree is one larger than its content. -/
theorem size_eq_content (t : Tree) :
    t.size = 1 + totalSize t.content := by
  cases t <;> simp [size, content, totalSize]

/- Children from a position on weigh what their trees do. -/
theorem pending_positions
    {t s : Tree}
    {steps : List Nat}
    (hSubtree : t.subtree? steps = some s)
    {later : List Tree}
    {k : Nat}
    (hLater : s.content.drop k = later) :
    t.pending ((later.zipIdx k).map fun (_, i) => .path (i :: steps)) =
      totalSize later := by
  induction later generalizing k with
  | nil => rfl
  | cons c later ih =>
      have hHead : s.content[k]? = some c := by
        rw [← List.head?_drop, hLater]
        rfl
      have hTail : s.content.drop (k + 1) = later := by
        rw [← List.tail_drop, hLater]
        rfl
      have hWeight : t.weight (.path (k :: steps)) = c.size := by
        simp [weight, subtree?, hSubtree, hHead]
      rw [List.zipIdx_cons, List.map_cons, pending, totalSize, hWeight,
        ih hTail]

/- The children together weigh less than their parent. -/
theorem pending_children_lt (t : Tree) (n : Node) :
    t.pending (t.children n) < t.weight n := by
  cases n with
  | attr owner index => simp [children, pending, weight]
  | path steps =>
      cases h : t.subtree? steps with
      | none => simp [children, pending, weight, h]
      | some s =>
          have hWeights := pending_positions h (List.drop_zero)
          simp only [children, weight, h, hWeights, s.size_eq_content]
          omega

end Tree

end TreeQuery
