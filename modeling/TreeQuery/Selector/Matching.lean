import TreeQuery.Selector.Basic
import TreeQuery.Selector.Options
import TreeQuery.Text.Lowercase
import TreeQuery.Tree.Content

/-
  Which nodes a selector matches.

  A selector is tested on a node of a tree in the scope of a
  query, the node at which the query starts.  The operands of
  a combinator are tested from the right: the right one on the
  node itself, which may not be the scope, the left one on the
  nodes it relates to.  Ancestors are searched up to the scope
  and no further.

  Key definitions include:
    * `Context`
    * `TagSelector.accepts`
    * `AttributeTest.holds`
    * `Position.of?`
    * `Context.candidateIndex?`
    * `Combinator.origins`
    * `Selector.accepts`
-/

namespace TreeQuery

------------------------------------------------------------
-- Context
------------------------------------------------------------

/- The tree, the scope and the options of a query. -/
structure Context where
  tree : Tree
  scope : Node
  options : Options

namespace Context

/- The context with another scope. -/
def within (ctx : Context) (scope : Node) : Context :=
  { ctx with scope := scope }

end Context

------------------------------------------------------------
-- Names and Attributes
------------------------------------------------------------

/- The name of a node satisfies a test. -/
def TagSelector.accepts (test : TagSelector) (t : Tree) (n : Node) : Bool :=
  (t.name? n).any fun name =>
    match test with
    | .name s => name.isWritten s
    | .anyNamespace l => name.hasLocalPart l
    | .namespaceOnly q => name.hasQualifier q
    | .qualified q l => name.hasQualifier q && name.hasLocalPart l

/- A value compares as asked with the expected text. -/
def Comparison.holds
    (c : Comparison)
    (policy : CasePolicy)
    (value expected : String) : Bool :=
  match c with
  | .equal => policy.equal value expected
  | .notEqual => !policy.equal value expected
  | .startsWith => policy.startsWith value expected
  | .endsWith => policy.endsWith value expected
  | .contains => policy.contains value expected

/-
  The value of an attribute, if the attribute is there,
  satisfies a test.  A missing value differs from every text
  but the empty one.
-/
def AttributeTest.holds
    {E : Engine}
    (test : AttributeTest E)
    (policy : CasePolicy)
    (value? : Option String) : Bool :=
  match test, value? with
  | .compare .notEqual expected, none => !expected.isEmpty
  | _, none => false
  | .present, some _ => true
  | .compare c expected, some value => c.holds policy value expected
  | .matchesPattern p, some value => p.occursIn value

------------------------------------------------------------
-- Positions
------------------------------------------------------------

/- The parent of a node, if it is an element. -/
def Tree.elementParent? (t : Tree) (n : Node) : Option Node :=
  n.parent?.filter t.isElement

/-
  The position of a node, counted from one, among the element
  children of its parent.
-/
def Position.of? (kind : Position) (t : Tree) (n parent : Node) :
    Option Nat :=
  let siblings := t.elementChildren parent
  let sameTag (m : Node) : Bool := t.tag? m == t.tag? n
  (siblings.findIdx? (· == n)).map fun i =>
    match kind with
    | .child => i + 1
    | .lastChild => siblings.length - i
    | .ofType => (siblings.take i).countP sameTag + 1
    | .lastOfType => (siblings.drop (i + 1)).countP sameTag + 1

/- The position of a node satisfies a formula. -/
def Position.holds
    (kind : Position)
    (formula : Formula)
    (t : Tree)
    (n : Node) : Bool :=
  ((t.elementParent? n).bind (kind.of? t n)).any formula.accepts

/- The node is the only element child of an element. -/
def Tree.isOnlyChild (t : Tree) (n : Node) : Bool :=
  (t.elementParent? n).any fun p => (t.elementChildren p).length == 1

/- No other element child of the parent has the same tag. -/
def Tree.isOnlyOfType (t : Tree) (n : Node) : Bool :=
  (t.elementParent? n).any fun p =>
    (t.elementChildren p).countP (fun m => t.tag? m == t.tag? n) == 1

/- The node has no children but comments. -/
def Tree.isEmptyNode (t : Tree) (n : Node) : Bool :=
  (t.children n).all fun m => t.kind? m == some .comment

------------------------------------------------------------
-- Texts
------------------------------------------------------------

/- The text that a source reads from a node. -/
def TextSource.read (source : TextSource) (t : Tree) (n : Node) : String :=
  match source with
  | .text => t.textOf n
  | .own => t.ownText n
  | .whole => t.wholeText n
  | .wholeOwn => t.wholeOwnText n

/-
  A text stands in what a source reads.  For normalised texts
  the needle is in small letters already.
-/
def TextSource.contains
    (source : TextSource)
    (needle : String)
    (t : Tree)
    (n : Node) : Bool :=
  let text := (source.read t n).toList
  if source.isNormalized then
    Text.occursIn needle.toList (Text.lowercase text)
  else
    Text.occursIn needle.toList text

------------------------------------------------------------
-- Scopes
------------------------------------------------------------

namespace Context

/-
  The node is the root of the query: its scope, or the first
  element of a document that is its scope.
-/
def isRoot (ctx : Context) (n : Node) : Bool :=
  if ctx.tree.kind? ctx.scope == some .document then
    (ctx.tree.elementChildren ctx.scope).head? == some n
  else
    n == ctx.scope

/-
  How many preceding siblings of a candidate are candidates
  too.  The scope is no candidate.
-/
def candidateIndex? (ctx : Context) (candidate : Node → Bool) (n : Node) :
    Option Nat :=
  if n != ctx.scope && candidate n then
    some ((ctx.tree.precedingElements n).countP candidate)
  else
    none

end Context

/- An index compares as asked with a number. -/
def IndexTest.holds (test : IndexTest) (i n : Nat) : Bool :=
  match test with
  | .lessThan => i < n
  | .greaterThan => n < i
  | .equalTo => i == n

/- The nodes of a list up to the first that satisfies `p`. -/
def takeThrough (p : Node → Bool) : List Node → List Node
| [] => []
| n :: ns => if p n then [n] else n :: takeThrough p ns

/- The nodes that the left operand may match, nearest first. -/
def Combinator.origins (c : Combinator) (ctx : Context) (n : Node) :
    List Node :=
  match c with
  | .descendant => takeThrough (· == ctx.scope) n.ancestors
  | .child => n.parent?.toList
  | .adjacent => (ctx.tree.previousElement? n).toList
  | .sibling => ctx.tree.precedingElements n

------------------------------------------------------------
-- Matching
------------------------------------------------------------

namespace Selector

variable {E : Engine}

mutual

/-
  A selector matches a node.  Only the scope itself may be
  matched without being an element.
-/
def accepts : Selector E → Context → Node → Bool
| .scope, ctx, n => n == ctx.scope
| .universal, ctx, n => ctx.tree.isElement n
| .tag test, ctx, n => ctx.tree.isElement n && test.accepts ctx.tree n
| .id value, ctx, n =>
    ctx.tree.isElement n && ctx.tree.id? n == some value
| .className name, ctx, n =>
    ctx.tree.isElement n && ctx.tree.hasClass n name
| .attr name test, ctx, n =>
    ctx.tree.isElement n
      && test.holds ctx.options.valueCase (ctx.tree.attributeValue? n name)
| .attrStarting start, ctx, n =>
    ctx.tree.isElement n && ctx.tree.hasAttributeStarting n start
| .root, ctx, n => ctx.tree.isElement n && ctx.isRoot n
| .index test k candidate, ctx, n =>
    ctx.tree.isElement n
      && (ctx.candidateIndex? (candidate.accepts ctx) n).any
        (test.holds · k)
| .position kind formula, ctx, n =>
    ctx.tree.isElement n && kind.holds formula ctx.tree n
| .onlyChild, ctx, n => ctx.tree.isElement n && ctx.tree.isOnlyChild n
| .onlyOfType, ctx, n => ctx.tree.isElement n && ctx.tree.isOnlyOfType n
| .empty, ctx, n => ctx.tree.isElement n && ctx.tree.isEmptyNode n
| .containsText source needle, ctx, n =>
    ctx.tree.isElement n && source.contains needle ctx.tree n
| .matchesText source pattern, ctx, n =>
    ctx.tree.isElement n && pattern.occursIn (source.read ctx.tree n)
| .compound parts, ctx, n =>
    ctx.tree.isElement n && acceptsAll parts ctx n
| .group branches, ctx, n =>
    ctx.tree.isElement n && acceptsAny branches ctx n
| .not inner, ctx, n => ctx.tree.isElement n && !inner.accepts ctx n
| .is inner, ctx, n => ctx.tree.isElement n && inner.accepts ctx n
| .has inner, ctx, n =>
    ctx.tree.isElement n
      && ctx.tree.anyElementBelow n (inner.accepts (ctx.within n))
| .combine c left right, ctx, n =>
    ctx.tree.isElement n
      && n != ctx.scope
      && right.accepts ctx n
      && (c.origins ctx n).any (left.accepts ctx)

/- All parts match a node. -/
def acceptsAll : List (Selector E) → Context → Node → Bool
| [], _, _ => true
| part :: parts, ctx, n => part.accepts ctx n && acceptsAll parts ctx n

/- Some branch matches a node. -/
def acceptsAny : List (Selector E) → Context → Node → Bool
| [], _, _ => false
| branch :: branches, ctx, n =>
    branch.accepts ctx n || acceptsAny branches ctx n

end

end Selector

end TreeQuery
