import TreeQuery.Pattern.Basic

/-
  Arranging an expression for its search.

  A look-behind has to know how far to go back.  One whose
  branches differ in length becomes a choice of look-behinds,
  or a sequence of them where no branch may match.

  Only the presence of a match is asked for, not its end.  So
  a look-ahead that ends the expression reads what it sees.

  Key definitions include:
    * `Expr.splitBehinds`
    * `Expr.releaseAhead`
    * `Expr.arranged`
-/

namespace TreeQuery.Pattern.Expr

------------------------------------------------------------
-- Looking Behind
------------------------------------------------------------

/- A look-behind for one of several branches. -/
def lookBehind (expected : Bool) (body : Expr) : Expr :=
  let looks := body.branches.map (.look .behind expected)
  if body.extent.fixed then
    .look .behind expected body
  else if expected then
    .ofBranches looks.dropLast (looks.getLastD .empty)
  else
    .ofPieces looks

/- Split every look-behind whose branches differ in length. -/
def splitBehinds : Expr → Expr
| .empty => .empty
| .char ignoreCase c => .char ignoreCase c
| .set ignoreCase s => .set ignoreCase s
| .assertion a => .assertion a
| .seq first rest => .seq first.splitBehinds rest.splitBehinds
| .alt first rest => .alt first.splitBehinds rest.splitBehinds
| .group index body => .group index body.splitBehinds
| .loop body least most greedy =>
    .loop body.splitBehinds least most greedy
| .look .ahead expected body => .look .ahead expected body.splitBehinds
| .look .behind expected body => lookBehind expected body.splitBehinds
| .atomic body => .atomic body.splitBehinds
| .backref ignoreCase index extent => .backref ignoreCase index extent

------------------------------------------------------------
-- Looking Ahead
------------------------------------------------------------

/-
  The pieces of a sequence up to a look-ahead that ends it,
  and what the look-ahead sees.
-/
def finalAhead? : Expr → Option (List Expr × Expr)
| .seq (.look .ahead true body) .empty => some ([], body)
| .seq first rest => do
    let (pieces, body) ← rest.finalAhead?
    return (first :: pieces, body)
| _ => none

/-
  Read what a final look-ahead sees, after the other pieces
  as a group of their own, which is numbered zero.
-/
def releaseAhead (e : Expr) : Expr :=
  match e.finalAhead? with
  | some (pieces, body) =>
      .seq (.group 0 (.ofPieces pieces)) (.seq body .empty)
  | none => e

/- The expression as it is searched for. -/
def arranged (e : Expr) : Expr :=
  e.splitBehinds.releaseAhead

end TreeQuery.Pattern.Expr
