import TreeQuery.Text.Alphabetic
import TreeQuery.Text.Blank
import TreeQuery.Text.Folding

/-
  Regular expressions, and the sets of characters in them.

  Key definitions include:
    * `CharSet`
    * `CharSet.contains`
    * `Assertion`
    * `Assertion.holds`
    * `Extent`
    * `Expr`
    * `Expr.ofPieces`
    * `Expr.ofBranches`

  A searched text is an array of characters, and a position
  in it is the number of characters before it.
-/

namespace TreeQuery.Pattern

------------------------------------------------------------
-- Character Sets
------------------------------------------------------------

/- Sets of characters, as written between square brackets. -/
inductive CharSet where
| all
| range (first last : Char)
| digit
| space
| word
| complement (s : CharSet)
| union (s t : CharSet)
| inter (s t : CharSet)
| diff (s t : CharSet)
| symmDiff (s t : CharSet)
deriving DecidableEq, Repr

namespace CharSet

/- The set of one character. -/
def single (c : Char) : CharSet :=
  .range c c

/- The set without characters. -/
def none : CharSet :=
  .complement .all

/-
  Membership.  Without regard to case a range holds every
  case variant of its characters; the other sets are closed
  under case variants already.
-/
def contains (ignoreCase : Bool) : CharSet → Char → Bool
| .all, _ => true
| .range first last, c =>
    let within (d : Char) : Bool := first ≤ d && d ≤ last
    within c || ignoreCase && (Text.caseVariants c).any within
| .digit, c => Text.isDecimalDigit c
| .space, c => Text.isBlank c
| .word, c => Text.isWordChar c
| .complement s, c => !s.contains ignoreCase c
| .union s t, c => s.contains ignoreCase c || t.contains ignoreCase c
| .inter s t, c => s.contains ignoreCase c && t.contains ignoreCase c
| .diff s t, c => s.contains ignoreCase c && !t.contains ignoreCase c
| .symmDiff s t, c => s.contains ignoreCase c != t.contains ignoreCase c

end CharSet

------------------------------------------------------------
-- Assertions
------------------------------------------------------------

/-
  Conditions on a position.  A position may be an edge of a
  word, or only have no word before it or after it, so that a
  word could start or end there.
-/
inductive Assertion where
| textStart
| textEnd
| lineStart
| lineEnd
| wordEdge
| noWordEdge
| wordStart
| wordEnd
| beforeWord
| afterWord
deriving DecidableEq, Repr

namespace Assertion

/- The character before a position, if it satisfies `p`. -/
def before (text : Array Char) (i : Nat) (p : Char → Bool) : Bool :=
  match i with
  | 0 => false
  | j + 1 => text[j]?.any p

/- The character after a position, if it satisfies `p`. -/
def after (text : Array Char) (i : Nat) (p : Char → Bool) : Bool :=
  text[i]?.any p

/- An assertion holds at a position of a text. -/
def holds (text : Array Char) (i : Nat) : Assertion → Bool
| .textStart => i == 0
| .textEnd => i == text.size
| .lineStart => i == 0 || before text i (· == '\n')
| .lineEnd => i == text.size || after text i (· == '\n')
| .wordEdge =>
    before text i Text.isWordChar != after text i Text.isWordChar
| .noWordEdge =>
    before text i Text.isWordChar == after text i Text.isWordChar
| .wordStart =>
    !before text i Text.isWordChar && after text i Text.isWordChar
| .wordEnd =>
    before text i Text.isWordChar && !after text i Text.isWordChar
| .beforeWord => !before text i Text.isWordChar
| .afterWord => !after text i Text.isWordChar

/- The assertion looks at the words around the position. -/
def regardsWords : Assertion → Bool
| .textStart | .textEnd | .lineStart | .lineEnd => false
| .wordEdge | .noWordEdge | .wordStart | .wordEnd
| .beforeWord | .afterWord => true

end Assertion

------------------------------------------------------------
-- Extents
------------------------------------------------------------

/-
  The lengths of the matches of an expression: the least of
  them, and whether it is known to be the only one.
-/
structure Extent where
  least : Nat
  fixed : Bool
deriving DecidableEq, Repr

namespace Extent

/- Matches of a single length. -/
def exactly (n : Nat) : Extent :=
  ⟨n, true⟩

/- Matches of any length. -/
def unknown : Extent :=
  ⟨0, false⟩

/- A match and another one after it. -/
def append (x y : Extent) : Extent :=
  ⟨x.least + y.least, x.fixed && y.fixed⟩

/- A match of one kind or of another. -/
def orElse (x y : Extent) : Extent :=
  ⟨min x.least y.least, x.fixed && y.fixed && x.least == y.least⟩

/- Matches one after the other, within bounds on their number. -/
def repeated (x : Extent) (least : Nat) (most : Option Nat) : Extent :=
  ⟨x.least * least, x.fixed && most == some least⟩

end Extent

------------------------------------------------------------
-- Expressions
------------------------------------------------------------

/- The side of a position that a look-around inspects. -/
inductive Direction where
| ahead
| behind
deriving DecidableEq, Repr

/-
  Regular expressions.  A loop repeats its body at least
  `least` times and at most `most` times, where `none` sets
  no limit.  A look-around with `expected = false` holds
  where its body does not match.  A back reference records
  what is known of the lengths that its group can have.
-/
inductive Expr where
| empty
| char (ignoreCase : Bool) (c : Char)
| set (ignoreCase : Bool) (s : CharSet)
| assertion (a : Assertion)
| seq (first rest : Expr)
| alt (first rest : Expr)
| group (index : Nat) (body : Expr)
| loop (body : Expr) (least : Nat) (most : Option Nat) (greedy : Bool)
| look (direction : Direction) (expected : Bool) (body : Expr)
| atomic (body : Expr)
| backref (ignoreCase : Bool) (index : Nat) (extent : Extent)
deriving DecidableEq, Repr

namespace Expr

/-
  Pieces one after the other, in a sequence that ends with
  the empty expression; a single piece stands alone.
-/
def ofPieces (pieces : List Expr) : Expr :=
  match pieces.filter (· != .empty) with
  | [] => .empty
  | [piece] => piece
  | pieces => pieces.foldr .seq .empty

/- The expression is a choice between branches. -/
def isChoice : Expr → Bool
| .alt .. => true
| _ => false

/-
  Branches to choose from, the last of which is given apart.
  A last branch that is a choice itself is kept in a sequence
  of its own, so that it counts as one branch.
-/
def ofBranches (others : List Expr) (last : Expr) : Expr :=
  if others.isEmpty || !last.isChoice then others.foldr .alt last
  else others.foldr .alt (.seq last .empty)

/- The branches of a choice; any other expression is one. -/
def branches : Expr → List Expr
| .alt first rest => first :: rest.branches
| e => [e]

/- The lengths of the matches of an expression. -/
def extent : Expr → Extent
| .empty | .assertion _ | .look .. => .exactly 0
| .char .. | .set .. => .exactly 1
| .seq first rest => first.extent.append rest.extent
| .alt first rest => first.extent.orElse rest.extent
| .group _ body | .atomic body => body.extent
| .loop body least most _ => body.extent.repeated least most
| .backref _ _ extent => extent

/- The expression with no regard to case in any part. -/
def withoutCase : Expr → Expr
| .empty => .empty
| .char _ c => .char true c
| .set _ s => .set true s
| .assertion a => .assertion a
| .seq first rest => .seq first.withoutCase rest.withoutCase
| .alt first rest => .alt first.withoutCase rest.withoutCase
| .group index body => .group index body.withoutCase
| .loop body least most greedy => .loop body.withoutCase least most greedy
| .look direction expected body => .look direction expected body.withoutCase
| .atomic body => .atomic body.withoutCase
| .backref _ index extent => .backref true index extent

/- A quantifier may follow the expression. -/
def repeatable : Expr → Bool
| .empty | .assertion _ | .look .. => false
| _ => true

end Expr

/- One character stands for another, with or without case. -/
def sameChar (ignoreCase : Bool) (c d : Char) : Bool :=
  c == d || ignoreCase && Text.foldChar c == Text.foldChar d

end TreeQuery.Pattern
