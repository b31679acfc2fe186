import TreeQuery.Pattern.Arrange
import TreeQuery.Pattern.Plan
import TreeQuery.Text.Bytes

/-
  Searching a text along a plan.

  A thread holds the goals that are still to be met and where
  it stands in the text.  At a choice the alternative is kept;
  when a goal fails, the search returns to the latest kept
  alternative.  The number of returns and the number of kept
  alternatives are limited, and a search that exceeds a limit
  gives up.

  Key definitions include:
    * `Goal`
    * `Thread`
    * `Choices`
    * `Thread.step`
    * `returnLimit`
    * `choiceLimit`
    * `Matcher`
    * `Expr.matcher?`
    * `Matcher.search?`
-/

namespace TreeQuery.Pattern

------------------------------------------------------------
-- Goals and Threads
------------------------------------------------------------

/-
  What a thread has to do next.

  `pass` decides on another pass of a loop, after `count` of
  them; `last` is where the last optional pass began.
  `closeGroup` ends a group, and `returnTo` goes back to where
  a look-around began.  `refuse` and `commit` drop the choices
  kept since there were `height` of them; `refuse` then fails.
-/
inductive Goal where
| run (p : Plan)
| pass
    (body : Plan)
    (least : Nat)
    (most : Option Nat)
    (greedy mayBeEmpty : Bool)
    (count : Nat)
    (last : Option Nat)
| closeGroup (index : Nat)
| returnTo (position : Nat)
| refuse (height : Nat)
| commit (height : Nat)

/-
  A thread: its goals, its position, and where each group was
  last opened and closed.
-/
structure Thread where
  goals : List Goal
  position : Nat
  opened : Array (Option Nat)
  closed : Array (Option Nat)

/- The alternatives kept, the latest first, and their number. -/
structure Choices where
  threads : List Thread
  height : Nat

namespace Choices

/- No alternatives. -/
def none : Choices :=
  ⟨[], 0⟩

/- Keep one alternative more. -/
def keep (cs : Choices) (t : Thread) : Choices :=
  ⟨t :: cs.threads, cs.height + 1⟩

/- Drop the alternatives kept since there were `height`. -/
def dropTo (cs : Choices) (height : Nat) : Choices :=
  ⟨cs.threads.drop (cs.height - height), min cs.height height⟩

end Choices

/- What a step of a thread leads to. -/
inductive Outcome where
| found
| proceed (thread : Thread) (choices : Choices)
| fail (choices : Choices)

------------------------------------------------------------
-- Back References
------------------------------------------------------------

/-
  The characters from a position on that take a number of
  bytes together, if there are such characters.
-/
def takeBytes? : (bytes : Nat) → List Char → Option (List Char)
| 0, _ => some []
| _ + 1, [] => none
| bytes + 1, c :: cs =>
    if c.utf8Size ≤ bytes + 1 then
      (takeBytes? (bytes + 1 - c.utf8Size) cs).map (c :: ·)
    else
      none

/- A text begins with the wanted one, without regard to case. -/
def beginsWith : (wanted there : List Char) → Bool
| [], _ => true
| c :: cs, d :: ds => sameChar true c d && beginsWith cs ds
| _ :: _, [] => false

/- The wanted text stands in a text, without regard to case. -/
def standsIn (wanted : List Char) : (there : List Char) → Bool
| [] => wanted.isEmpty
| d :: ds => beginsWith wanted (d :: ds) || standsIn wanted ds

/-
  The text of a group recurs as a text of as many bytes.  With
  regard to case, and in ASCII, that has to be the same text;
  otherwise the group's text may stand anywhere in it, since
  case variants can be shorter than what they vary.
-/
def recurs (ignoreCase : Bool) (wanted there : List Char) : Bool :=
  if !ignoreCase then there == wanted
  else if there.all (·.toNat < 128) then
    wanted.length == there.length && beginsWith wanted there
  else
    standsIn wanted there

namespace Thread

/- The characters read by a group, once it is closed. -/
def groupText? (t : Thread) (text : Array Char) (index : Nat) :
    Option (List Char) := do
  let first ← t.opened[index]?.join
  let last ← t.closed[index]?.join
  return (text.extract first last).toList

/- The position after the text of a group that stands here again. -/
def afterGroup?
    (t : Thread)
    (text : Array Char)
    (ignoreCase : Bool)
    (index : Nat) : Option Nat := do
  let wanted ← t.groupText? text index
  let bytes := Text.byteLength wanted
  let ahead := (text.extract t.position (t.position + bytes)).toList
  let there ← takeBytes? bytes ahead
  if recurs ignoreCase wanted there then
    return t.position + there.length
  else
    .none

------------------------------------------------------------
-- Steps
------------------------------------------------------------

/- Choose between going on with two lists of goals. -/
def choose
    (t : Thread)
    (preferred other : List Goal)
    (choices : Choices) : Outcome :=
  .proceed { t with goals := preferred }
    (choices.keep { t with goals := other })

/- One pass more of a loop, or none. -/
def choosePass
    (t : Thread)
    (greedy : Bool)
    (again rest : List Goal)
    (choices : Choices) : Outcome :=
  if greedy then t.choose again rest choices
  else t.choose rest again choices

/- Start on a plan, with the goals that follow it. -/
def begin
    (t : Thread)
    (text : Array Char)
    (choices : Choices)
    (rest : List Goal) : Plan → Outcome
| .done => .proceed { t with goals := rest } choices
| .whole a =>
    match a.endFrom? text t.position with
    | some i => .proceed { t with goals := rest, position := i } choices
    | none => .fail choices
| .seq first next =>
    .proceed { t with goals := .run first :: .run next :: rest } choices
| .alt first next =>
    t.choose (.run first :: rest) (.run next :: rest) choices
| .group index body =>
    .proceed
      { t with
        goals := .run body :: .closeGroup index :: rest
        opened := t.opened.setIfInBounds index (some t.position) }
      choices
| .loop body least most greedy mayBeEmpty =>
    if least == 0 && most == some 1 then
      t.choosePass greedy (.run body :: rest) rest choices
    else
      .proceed
        { t with
          goals := .pass body least most greedy mayBeEmpty 0 none :: rest }
        choices
| .look true body =>
    .proceed
      { t with goals := .run body :: .returnTo t.position :: rest }
      choices
| .look false body =>
    t.choose [.run body, .refuse choices.height] rest choices
| .back width =>
    if width ≤ t.position then
      .proceed
        { t with goals := rest, position := t.position - width } choices
    else
      .fail choices
| .atomic body =>
    .proceed
      { t with goals := .run body :: .commit choices.height :: rest }
      choices
| .backref ignoreCase index =>
    match t.afterGroup? text ignoreCase index with
    | some i => .proceed { t with goals := rest, position := i } choices
    | none => .fail choices

/-
  Meet the first goal of a thread.  An unlimited loop whose
  last pass has read nothing ends there.
-/
def step
    (t : Thread)
    (text : Array Char)
    (choices : Choices) : Outcome :=
  match t.goals with
  | [] => .found
  | .run p :: rest => t.begin text choices rest p
  | .closeGroup index :: rest =>
      .proceed
        { t with
          goals := rest
          closed := t.closed.setIfInBounds index (some t.position) }
        choices
  | .returnTo i :: rest =>
      .proceed { t with goals := rest, position := i } choices
  | .refuse height :: _ => .fail (choices.dropTo height)
  | .commit height :: rest =>
      .proceed { t with goals := rest } (choices.dropTo height)
  | .pass body least most greedy mayBeEmpty count last :: rest =>
      let again (last : Option Nat) : List Goal :=
        .run body
          :: .pass body least most greedy mayBeEmpty (count + 1) last
          :: rest
      let isIdle :=
        mayBeEmpty && most.isNone && count > 0
          && last == some t.position
      if isIdle || most == some count then
        .proceed { t with goals := rest } choices
      else if count < least then
        .proceed { t with goals := again last } choices
      else
        t.choosePass greedy (again (some t.position)) rest choices

end Thread

------------------------------------------------------------
-- Search
------------------------------------------------------------

/- How often a search may return to a kept alternative. -/
def returnLimit : Nat := 1000000

/- How many alternatives a search may keep. -/
def choiceLimit : Nat := 1000000

/-
  Run a thread until its goals are met or no alternative is
  left, with a bound on the steps.
-/
def runThread?
    (text : Array Char) :
    (steps returns : Nat) → Thread → Choices → Option Bool
| 0, _, _, _ => none
| steps + 1, returns, t, choices =>
    match t.step text choices with
    | .found => some true
    | .proceed t choices =>
        if choices.height ≤ choiceLimit then
          runThread? text steps returns t choices
        else
          none
    | .fail ⟨[], _⟩ => some false
    | .fail ⟨t :: threads, height⟩ =>
        match returns with
        | 0 => none
        | returns + 1 =>
            runThread? text steps returns t ⟨threads, height - 1⟩

namespace Plan

/- The steps of a plan between two failures, at most. -/
def weight (size : Nat) : Plan → Nat
| .done | .whole _ | .back _ | .backref .. => 1
| .seq first rest | .alt first rest =>
    1 + first.weight size + rest.weight size
| .group _ body | .look _ body | .atomic body => 2 + body.weight size
| .loop body least most .. =>
    2 + (least + most.getD 0 + size + 1) * (1 + body.weight size)

/- The number of groups that a plan refers to. -/
def groupCount : Plan → Nat
| .done | .whole _ | .back _ => 0
| .seq first rest | .alt first rest =>
    max first.groupCount rest.groupCount
| .group index body => max (index + 1) body.groupCount
| .loop body .. | .look _ body | .atomic body => body.groupCount
| .backref _ index => index + 1

/- Whether the plan is met at the start of the text. -/
def meets? (p : Plan) (text : Array Char) : Option Bool :=
  let groups := Array.replicate p.groupCount none
  runThread? text
    ((returnLimit + 1) * (p.weight text.size + 2)) returnLimit
    ⟨[.run p], 0, groups, groups⟩ .none

/- Skip characters until the plan is met. -/
def anywhere (p : Plan) : Plan :=
  let step := (Expr.set false .all).automaton
  .seq (.loop (.whole step) 0 none false false) p

end Plan

------------------------------------------------------------
-- Matchers
------------------------------------------------------------

/-
  How the matches of an expression are found: by an automaton,
  or by a search along a plan.
-/
inductive Matcher where
| regular (a : Automaton)
| planned (p : Plan)

namespace Expr

/-
  The matcher of an expression, if there is one.  A regular
  expression disregards case in all of its parts if it is to
  be read so; otherwise each part has its own regard to case.
-/
def matcher? (ignoreCase : Bool) (e : Expr) : Option Matcher :=
  let e := e.arranged
  let refs := e.references
  if e.needsSearch refs then
    (e.plan? refs false .alone).map .planned
  else if e.isReadable then
    some (.regular (if ignoreCase then e.withoutCase else e).automaton)
  else
    none

end Expr

/-
  Whether a match stands somewhere in the text.  Only a search
  along a plan is subject to the limits.
-/
def Matcher.search? (text : Array Char) : Matcher → Option Bool
| .regular a => some (a.occursIn text)
| .planned p => p.anywhere.meets? text

end TreeQuery.Pattern
