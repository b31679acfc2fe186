import TreeQuery.Pattern.Basic

/-
  Measures of expressions, which decide how they are searched.

  An expression needs a search with choices that can be taken
  back if it looks around, cuts its choices, regards word
  edges, or refers back to a group.  Any other expression is
  regular, and one automaton reads it.

  Key definitions include:
    * `Expr.references`
    * `Expr.needsSearch`
    * `Expr.readsNothing`
    * `Expr.unrolledSize`
    * `Expr.sizeLimit`
    * `Expr.isReadable`
-/

namespace TreeQuery.Pattern.Expr

------------------------------------------------------------
-- References
------------------------------------------------------------

/- The groups that the expression refers back to. -/
def references : Expr → List Nat
| .empty | .assertion _ | .char .. | .set .. => []
| .seq first rest | .alt first rest =>
    first.references ++ rest.references
| .group _ body | .atomic body | .look _ _ body | .loop body .. =>
    body.references
| .backref _ index _ => [index]

/-
  The expression is not regular, where `refs` are the groups
  that the whole expression refers back to.
-/
def needsSearch (refs : List Nat) : Expr → Bool
| .empty | .char .. | .set .. => false
| .assertion a => a.regardsWords
| .seq first rest | .alt first rest =>
    first.needsSearch refs || rest.needsSearch refs
| .group index body =>
    refs.contains index || body.needsSearch refs
| .loop body .. => body.needsSearch refs
| .look .. | .atomic _ | .backref .. => true

------------------------------------------------------------
-- Sizes
------------------------------------------------------------

/- No match of the expression has a character. -/
def readsNothing : Expr → Bool
| .empty | .assertion _ | .look .. => true
| .char .. | .set .. | .backref .. => false
| .seq first rest | .alt first rest =>
    first.readsNothing && rest.readsNothing
| .group _ body | .atomic body => body.readsNothing
| .loop body _ most _ => body.readsNothing || most == some 0

/-
  How many passes of a loop are written out: the least number
  first, and then the further ones, where `none` is a loop
  without end.  A body that reads nothing is passed once.
-/
def passes (body : Expr) (least : Nat) (most : Option Nat) :
    Nat × Option Nat :=
  if body.readsNothing then
    (min 1 least, some (min 1 (most.getD 1) - min 1 least))
  else
    (least, most.map (· - least))

/-
  The number of pieces of the expression once the passes of
  its loops are written out.
-/
def unrolledSize : Expr → Nat
| .empty | .char .. | .set .. | .assertion _ | .backref .. => 1
| .seq first rest | .alt first rest =>
    first.unrolledSize + rest.unrolledSize
| .group _ body | .atomic body | .look _ _ body => body.unrolledSize
| .loop body least most _ =>
    let (first, further) := body.passes least most
    body.unrolledSize * max 1 (first + further.getD 0)

/- The greatest number of pieces, with loops written out. -/
def sizeLimit : Nat := 327680

/- The bounds of every loop are in order. -/
def hasOrderedBounds : Expr → Bool
| .empty | .char .. | .set .. | .assertion _ | .backref .. => true
| .seq first rest | .alt first rest =>
    first.hasOrderedBounds && rest.hasOrderedBounds
| .group _ body | .atomic body | .look _ _ body =>
    body.hasOrderedBounds
| .loop body least most _ =>
    most.all (least ≤ ·) && body.hasOrderedBounds

/-
  An automaton can be made for the expression: the bounds of
  its loops are in order, and it does not grow too large when
  they are written out.
-/
def isReadable (e : Expr) : Bool :=
  e.hasOrderedBounds && e.unrolledSize ≤ sizeLimit

end TreeQuery.Pattern.Expr
