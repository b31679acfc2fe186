import TreeQuery.Pattern.Automaton

/-
  Plans: which parts of an expression automata read, and which
  are searched with choices that can be taken back.

  A regular part is left to an automaton, which takes the
  preferred match, wherever nothing that follows could ask
  for another one.

  Key definitions include:
    * `Plan`
    * `Place`
    * `Expr.plan?`
-/

namespace TreeQuery.Pattern

------------------------------------------------------------
-- Plans
------------------------------------------------------------

/-
  How an expression is matched.  `whole` takes the preferred
  match of an automaton and keeps no choices.  `back` goes
  back a number of characters.
-/
inductive Plan where
| done
| whole (a : Automaton)
| seq (first rest : Plan)
| alt (first rest : Plan)
| group (index : Nat) (body : Plan)
| loop
    (body : Plan)
    (least : Nat)
    (most : Option Nat)
    (greedy mayBeEmpty : Bool)
| look (expected : Bool) (body : Plan)
| back (width : Nat)
| atomic (body : Plan)
| backref (ignoreCase : Bool) (index : Nat)

/-
  Where an expression stands: by itself, at the front of a
  sequence after pieces that one automaton can read together,
  or further on in a sequence or a choice.
-/
inductive Place where
| alone
| front (run : List Expr)
| later

namespace Expr

/- The plan of an expression that an automaton reads. -/
def wholePlan? : Expr → Option Plan
| .empty => some .done
| e => if e.isReadable then some (.whole e.automaton) else none

/-
  The plan of an expression, if it can be carried out.  With
  `backtracks`, what follows may ask for another match.

  In a sequence, the regular pieces of fixed length at the
  front are read together.  What comes last is read together
  too, from the first piece on after which all are regular;
  with `backtracks`, they have to be of fixed length.  So does
  what a look-behind sees.
-/
def plan? (refs : List Nat) :
    (backtracks : Bool) → Place → Expr → Option Plan
| _, .front run, .empty => wholePlan? (.ofPieces run)
| _, _, .empty => some .done
| _, _, .char ignoreCase c => wholePlan? (.char ignoreCase c)
| _, _, .set ignoreCase s => wholePlan? (.set ignoreCase s)
| _, _, .assertion a => wholePlan? (.assertion a)
| backtracks, .alone, .seq first .empty =>
    first.plan? refs backtracks .alone
| backtracks, place, .seq first rest =>
    let e := Expr.seq first rest
    let regular := !e.needsSearch refs
    let joins := first.extent.fixed && !first.needsSearch refs
    match place, regular && !backtracks, joins with
    | .alone, true, _ => wholePlan? e
    | .alone, false, true => rest.plan? refs backtracks (.front [first])
    | .front run, _, true =>
        rest.plan? refs backtracks (.front (run ++ [first]))
    | place, _, _ => do
        let final ←
          if regular && (!backtracks || e.extent.fixed) then
            wholePlan? e
          else do
            let first' ← first.plan? refs true .alone
            let rest' ← rest.plan? refs backtracks .later
            pure (.seq first' rest')
        match place with
        | .front run => return .seq (← wholePlan? (.ofPieces run)) final
        | .alone | .later => return final
| backtracks, place, .alt first rest =>
    let e := Expr.alt first rest
    match place, !backtracks && !e.needsSearch refs with
    | .alone, true => wholePlan? e
    | _, _ => do
        let place := if rest.isChoice then Place.later else .alone
        let first' ← first.plan? refs backtracks .alone
        let rest' ← rest.plan? refs backtracks place
        return .alt first' rest'
| backtracks, _, .group index body =>
    let e := Expr.group index body
    if !backtracks && !e.needsSearch refs then wholePlan? e
    else return .group index (← body.plan? refs backtracks .alone)
| backtracks, _, .loop body least most greedy =>
    let e := Expr.loop body least most greedy
    let inner :=
      if least == 0 && most == some 1 then backtracks
      else backtracks || body.needsSearch refs
    if !backtracks && !e.needsSearch refs then wholePlan? e
    else do
      let body' ← body.plan? refs inner .alone
      return .loop body' least most greedy (body.extent.least == 0)
| _, _, .look .ahead expected body => do
    return .look expected (← body.plan? refs false .alone)
| _, _, .look .behind expected body =>
    if body.extent.fixed then do
      let body' ← body.plan? refs false .alone
      return .look expected (.seq (.back body.extent.least) body')
    else
      none
| _, _, .atomic body => return .atomic (← body.plan? refs false .alone)
| _, _, .backref ignoreCase index _ =>
    return .backref ignoreCase index

end Expr

end TreeQuery.Pattern
