import TreeQuery.Pattern
import TreeQuery.Selector.Formula

/-
  Selectors: predicates on the nodes of a tree.

  A selector is tested on one node.  Combinators relate the
  node to others that their left operand has to match.  The
  regular expressions in it belong to an engine, which reads
  them and searches texts for them.

  Key definitions include:
    * `TagSelector`
    * `AttributeTest`
    * `Combinator`
    * `Selector`
    * `Selector.ofParts`
    * `Selector.ofBranches`
-/

namespace TreeQuery

------------------------------------------------------------
-- Parts of Selectors
------------------------------------------------------------

/-
  Tests of element names: the name as written, any qualifier
  with a local part, a qualifier with any local part, or both.
-/
inductive TagSelector where
| name (name : String)
| anyNamespace (localPart : String)
| namespaceOnly (qualifier : String)
| qualified (qualifier localPart : String)
deriving DecidableEq, Repr

/- Comparisons of attribute values with a text. -/
inductive Comparison where
| equal
| notEqual
| startsWith
| endsWith
| contains
deriving DecidableEq, Repr

/- Tests of an attribute. -/
inductive AttributeTest (E : Engine) where
| present
| compare (comparison : Comparison) (value : String)
| matchesPattern (pattern : Pattern E)
deriving DecidableEq, Repr

/- Comparisons of a candidate's index with a number. -/
inductive IndexTest where
| lessThan
| greaterThan
| equalTo
deriving DecidableEq, Repr

/- Which siblings a position counts, and from which end. -/
inductive Position where
| child
| lastChild
| ofType
| lastOfType
deriving DecidableEq, Repr

/- Which text of a node a predicate reads. -/
inductive TextSource where
| text
| own
| whole
| wholeOwn
deriving DecidableEq, Repr

/-
  The texts with normalised blanks are compared without
  regard to case, the others as they are.
-/
def TextSource.isNormalized : TextSource → Bool
| .text | .own => true
| .whole | .wholeOwn => false

/- How the node of the right operand relates to the left one. -/
inductive Combinator where
| descendant
| child
| adjacent
| sibling
deriving DecidableEq, Repr

------------------------------------------------------------
-- Selectors
------------------------------------------------------------

/-
  Selectors.

  `index` counts the preceding siblings that match its
  candidate.  `compound` asks for all of its parts on the same
  node, `group` for any of its branches.  `has` asks for a
  descendant, which is matched with the node as its scope.
-/
inductive Selector (E : Engine) where
| universal
| tag (test : TagSelector)
| id (value : String)
| className (name : String)
| attr (name : String) (test : AttributeTest E)
| attrStarting (start : String)
| root
| scope
| index (test : IndexTest) (n : Nat) (candidate : Selector E)
| position (kind : Position) (formula : Formula)
| onlyChild
| onlyOfType
| empty
| containsText (source : TextSource) (needle : String)
| matchesText (source : TextSource) (pattern : Pattern E)
| compound (parts : List (Selector E))
| group (branches : List (Selector E))
| not (inner : Selector E)
| is (inner : Selector E)
| has (inner : Selector E)
| combine (combinator : Combinator) (left right : Selector E)
deriving Repr

namespace Selector

variable {E : Engine}

/- The parts of a compound; a single part stands alone. -/
def ofParts : List (Selector E) → Selector E
| [part] => part
| parts => .compound parts

/- The branches of a group; a single branch stands alone. -/
def ofBranches : List (Selector E) → Selector E
| [branch] => branch
| branches => .group branches

/- A test of the attribute with a name in any case. -/
def ofAttribute (name : String) (test : AttributeTest E) : Selector E :=
  .attr (Text.asciiLowerString name) test

end Selector

end TreeQuery
