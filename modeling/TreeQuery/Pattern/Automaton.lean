import Std.Data.HashSet
import TreeQuery.Pattern.Measure

/-
  Automata that read regular expressions.

  The nodes of an automaton are numbered, and a fork goes on
  to one of two nodes, the preferred one first.  A run follows
  all branches in order of preference.  It enters a fork once
  at each position, since what follows from there is known
  already; thus a pass of a loop that reads nothing does not
  lead to another pass.

  Key definitions include:
    * `Node`
    * `Automaton`
    * `Expr.build`
    * `Expr.automaton`
    * `Node.successors`
    * `Automaton.run`
    * `Automaton.endFrom?`
    * `Automaton.occursIn`
-/

namespace TreeQuery.Pattern

------------------------------------------------------------
-- Automata
------------------------------------------------------------

/- A node, with the numbers of the nodes to go on to. -/
inductive Node where
| accept
| char (ignoreCase : Bool) (c : Char) (next : Nat)
| set (ignoreCase : Bool) (s : CharSet) (next : Nat)
| assertion (a : Assertion) (next : Nat)
| fork (preferred other : Nat)
deriving Repr

/- Nodes, and the number of the one to begin with. -/
structure Automaton where
  nodes : Array Node
  start : Nat
deriving Repr

------------------------------------------------------------
-- Construction
------------------------------------------------------------

/-
  A construction adds nodes that go on to a given node, and
  gives the number of the node to enter at.
-/
abbrev Construction :=
  (next : Nat) → Array Node → Nat × Array Node

namespace Construction

/- A single node. -/
def node (make : Nat → Node) : Construction :=
  fun next nodes => (nodes.size, nodes.push (make next))

/- A fork between going on and leaving. -/
def fork (greedy : Bool) (onward exit : Nat) : Node :=
  if greedy then .fork onward exit else .fork exit onward

/- The same construction a number of times in a row. -/
def exactly (body : Construction) : Nat → Construction
| 0, next, nodes => (next, nodes)
| n + 1, next, nodes =>
    let (next, nodes) := body next nodes
    exactly body n next nodes

/- Up to a number of passes, before each of which one may leave. -/
def upTo (body : Construction) (greedy : Bool) : Nat → Construction
| 0, exit, nodes => (exit, nodes)
| n + 1, exit, nodes =>
    let (again, nodes) := upTo body greedy n exit nodes
    let (entry, nodes) := body again nodes
    node (fork greedy entry) exit nodes

/-
  One pass or more, after each of which one may leave.  Gives
  the entry of the first pass, and the node that follows each.
-/
def atLeastOnce
    (body : Construction)
    (greedy : Bool)
    (exit : Nat)
    (nodes : Array Node) : (Nat × Nat) × Array Node :=
  let turn := nodes.size
  let (entry, nodes) := body turn (nodes.push .accept)
  ((entry, turn), nodes.setIfInBounds turn (fork greedy entry exit))

/-
  Any number of passes from the least one on.  If a pass may
  read nothing, leaving at once is a choice of its own.
-/
def forever
    (body : Construction)
    (greedy mayBeEmpty : Bool)
    (least : Nat) : Construction :=
  fun exit nodes =>
    let ((entry, turn), nodes) := atLeastOnce body greedy exit nodes
    match least with
    | 0 =>
        if mayBeEmpty then node (fork greedy entry) exit nodes
        else (turn, nodes)
    | n + 1 => exactly body n entry nodes

end Construction

namespace Expr

/- The nodes of a regular expression. -/
def build : Expr → Construction
| .empty => fun next nodes => (next, nodes)
| .char ignoreCase c => .node (.char ignoreCase c)
| .set ignoreCase s => .node (.set ignoreCase s)
| .assertion a => .node (.assertion a)
| .seq first rest => fun next nodes =>
    let (next, nodes) := rest.build next nodes
    first.build next nodes
| .alt first rest => fun next nodes =>
    let (other, nodes) := rest.build next nodes
    let (preferred, nodes) := first.build next nodes
    Construction.node (fun _ => .fork preferred other) next nodes
| .group _ body => body.build
| .loop body least most greedy => fun next nodes =>
    match body.passes least most with
    | (first, some further) =>
        let (next, nodes) :=
          Construction.upTo body.build greedy further next nodes
        Construction.exactly body.build first next nodes
    | (first, none) =>
        Construction.forever body.build greedy (body.extent.least == 0)
          first next nodes
| .look .. | .atomic _ | .backref .. => fun next nodes => (next, nodes)

/- The automaton of a regular expression. -/
def automaton (e : Expr) : Automaton :=
  let (start, nodes) := e.build 0 #[.accept]
  ⟨nodes, start⟩

end Expr

------------------------------------------------------------
-- Runs
------------------------------------------------------------

/-
  Where a node leads to from a position: the nodes to go on
  to, each with a position, in order of preference.
-/
def Node.successors (text : Array Char) (i : Nat) :
    Node → List (Nat × Nat)
| .accept => []
| .char ignoreCase c next =>
    if text[i]?.any (sameChar ignoreCase c) then [(next, i + 1)] else []
| .set ignoreCase s next =>
    if text[i]?.any (s.contains ignoreCase) then [(next, i + 1)] else []
| .assertion a next => if a.holds text i then [(next, i)] else []
| .fork preferred other => [(preferred, i), (other, i)]

namespace Automaton

/-
  The first position, in order of preference, at which a run
  is accepted.  `branches` holds the nodes to go on to, and
  `entered` the forks entered already.
-/
def run
    (a : Automaton)
    (text : Array Char) :
    (steps : Nat) →
    (branches : List (Nat × Nat)) →
    (entered : Std.HashSet (Nat × Nat)) →
    Option Nat
| 0, _, _ => none
| _ + 1, [], _ => none
| steps + 1, (n, i) :: branches, entered =>
    match a.nodes[n]? with
    | none => a.run text steps branches entered
    | some .accept => some i
    | some (.fork preferred other) =>
        if entered.contains (n, i) then
          a.run text steps branches entered
        else
          a.run text steps
            ((preferred, i) :: (other, i) :: branches)
            (entered.insert (n, i))
    | some node =>
        a.run text steps (node.successors text i ++ branches) entered

/-
  The preferred end of the matches that begin at one of several
  positions, the first of them preferred.  Every fork adds two
  branches at each position at most, and between two forks a
  branch passes each node once at most.
-/
def firstEnd?
    (a : Automaton)
    (text : Array Char)
    (starts : List Nat) : Option Nat :=
  let branches := starts.length + 2 * a.nodes.size * (text.size + 1)
  a.run text ((branches + 1) * (a.nodes.size + 1))
    (starts.map (a.start, ·)) ∅

/- The preferred end of the matches that begin at a position. -/
def endFrom? (a : Automaton) (text : Array Char) (i : Nat) :
    Option Nat :=
  a.firstEnd? text [i]

/- A match stands somewhere in a text. -/
def occursIn (a : Automaton) (text : Array Char) : Bool :=
  (a.firstEnd? text (List.range (text.size + 1))).isSome

end Automaton

end TreeQuery.Pattern
