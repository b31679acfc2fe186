import TreeQuery.Pattern.Measure
import TreeQuery.Pattern.SetReader

/-
  Reading regular expressions.

  The text is read from left to right.  Groups that are still
  open wait in a list with what was read before them; a
  quantifier applies to the piece read last.

  Key definitions include:
    * `Flags`
    * `Enclosure`
    * `Reader`
    * `Reader.step?`
    * `Expr.read?`
-/

namespace TreeQuery.Pattern

------------------------------------------------------------
-- State
------------------------------------------------------------

/-
  Modes that an expression can set for what follows.  They
  outlast the group in which they are set, unless that group
  is plain.
-/
structure Flags where
  ignoreCase : Bool
  multiLine : Bool
  dotAll : Bool
  swapGreed : Bool
  verbose : Bool

/- What parentheses make of the expression between them. -/
inductive Enclosure where
| plain
| capture (index : Nat)
| look (direction : Direction) (expected : Bool)
| atomic

namespace Enclosure

/- The expression between parentheses, closed. -/
def close : Enclosure → Expr → Expr
| .plain, body => body
| .capture index, body => .group index body
| .look direction expected, body => .look direction expected body
| .atomic, body => .atomic body

/- The flags after a group, by those before it and those in it. -/
def flagsAfter (before inside : Flags) : Enclosure → Flags
| .plain => before
| .capture _ | .look .. | .atomic => inside

/- What a group makes known of the lengths of its matches. -/
def extents (body : Expr) : Enclosure → List (Nat × Extent)
| .capture index => [(index, body.extent)]
| .plain | .look .. | .atomic => []

end Enclosure

/-
  What has been read between one pair of parentheses: the
  finished branches, and the pieces of the present one, each
  with the latest first.  `fresh` says that a quantifier may
  follow the latest piece.
-/
structure Level where
  branches : List Expr
  pieces : List Expr
  fresh : Bool

namespace Level

/- Nothing read yet. -/
def start : Level :=
  ⟨[], [], false⟩

/- Add a piece. -/
def push (l : Level) (piece : Expr) : Level :=
  { l with pieces := piece :: l.pieces, fresh := true }

/- The present branch. -/
def branch (l : Level) : Expr :=
  Expr.ofPieces l.pieces.reverse

/- The expression of all branches. -/
def value (l : Level) : Expr :=
  Expr.ofBranches l.branches.reverse l.branch

end Level

/- A group that is still open. -/
structure OpenGroup where
  enclosure : Enclosure
  level : Level
  flags : Flags

/-
  The state of reading: the present level, the groups around
  it, the present flags, how many groups have been numbered,
  what is known of the groups that are closed, the names of
  groups, and whether a group was referred to by its number.
-/
structure Reader where
  level : Level
  outer : List OpenGroup
  flags : Flags
  groupCount : Nat
  extents : List (Nat × Extent)
  names : List (List Char × Nat)
  usesNumbers : Bool

namespace Reader

/- Add a piece at the present level. -/
def push (r : Reader) (piece : Expr) : Reader :=
  { r with level := r.level.push piece }

------------------------------------------------------------
-- Comments
------------------------------------------------------------

/- What follows a comment in parentheses, after its opening. -/
def afterComment? : List Char → Option (List Char)
| [] | ['\\'] => none
| ')' :: rest => some rest
| '\\' :: _ :: rest => afterComment? rest
| _ :: rest => afterComment? rest

/-
  What follows the comments at the start of a text, with a
  bound on their number.  Verbose expressions also have blanks
  between their pieces, and comments that end with the line.
-/
def afterComments? (verbose : Bool) :
    Nat → List Char → Option (List Char)
| 0, cs => some cs
| _ + 1, [] => some []
| fuel + 1, '(' :: '?' :: '#' :: rest => do
    afterComments? verbose fuel (← afterComment? rest)
| fuel + 1, c :: cs =>
    if verbose && [' ', '\r', '\n', '\t'].contains c then
      afterComments? verbose fuel cs
    else if verbose && c == '#' then
      afterComments? verbose fuel ((cs.dropWhile (· != '\n')).drop 1)
    else
      some (c :: cs)

/- What follows the comments that come next, if any do. -/
def skip? (r : Reader) (cs : List Char) : Option (List Char) :=
  if r.flags.verbose || "(?#".toList.isPrefixOf cs then
    afterComments? r.flags.verbose cs.length cs
  else
    some cs

------------------------------------------------------------
-- Quantifiers
------------------------------------------------------------

/- The bounds of a counted loop, after the opening brace. -/
def readBounds? (cs : List Char) :
    Option ((Nat × Option Nat) × List Char) := do
  let (least, rest) ←
    match cs with
    | ',' :: _ => some (0, cs)
    | _ => readNumber? cs
  match rest with
  | '\x7d' :: rest => return ((least, some least), rest)
  | ',' :: '\x7d' :: rest => return ((least, none), rest)
  | ',' :: rest =>
      let (most, rest) ← readNumber? rest
      match rest with
      | '\x7d' :: rest => return ((least, some most), rest)
      | _ => none
  | _ => none

/-
  Repeat the latest piece.  A question mark after the bounds
  prefers fewer passes, and a plus sign keeps no choices.
-/
def repeatLatest?
    (r : Reader)
    (least : Nat)
    (most : Option Nat)
    (rest : List Char) : Option (Reader × List Char) :=
  match r.level.fresh, r.level.pieces with
  | true, piece :: pieces =>
      if !piece.repeatable then none
      else do
        let rest ← r.skip? rest
        let (lazily, rest) :=
          match rest with
          | '?' :: rest => (true, rest)
          | _ => (false, rest)
        let loop :=
          Expr.loop piece least most (lazily == r.flags.swapGreed)
        let (piece, rest) :=
          match rest with
          | '+' :: rest => (Expr.atomic loop, rest)
          | _ => (loop, rest)
        let level := { r.level with
          pieces := piece :: pieces
          fresh := false }
        return ({ r with level := level }, rest)
  | _, _ => none

------------------------------------------------------------
-- Back References
------------------------------------------------------------

/- The text up to a closing sign, and what follows the sign. -/
def readUpTo? (closing : Char) (cs : List Char) :
    Option (List Char × List Char) :=
  match cs.span (· != closing) with
  | (text, _ :: rest) => some (text, rest)
  | (_, []) => none

/- Refer back to a group, which may be one that follows. -/
def refer (r : Reader) (index : Nat) : Reader :=
  let extent := (r.extents.lookup index).getD .unknown
  r.push (.backref r.flags.ignoreCase index extent)

/- Refer back to a group by its name, or by its number as a name. -/
def referNamed? (r : Reader) (name : List Char) : Option Reader := do
  let index ← r.names.lookup name <|> Text.readDigits? name
  return r.refer index

------------------------------------------------------------
-- Groups
------------------------------------------------------------

/- The greatest number of groups inside of each other. -/
def nestingLimit : Nat := 63

/- Go inside of a group. -/
def enter?
    (r : Reader)
    (enclosure : Enclosure)
    (rest : List Char) : Option (Reader × List Char) :=
  if r.outer.length < nestingLimit then
    some
      ({ r with
          level := .start
          outer := ⟨enclosure, r.level, r.flags⟩ :: r.outer },
        rest)
  else
    none

/- Go inside of a numbered group. -/
def capture? (r : Reader) (rest : List Char) :
    Option (Reader × List Char) :=
  let index := r.groupCount + 1
  { r with groupCount := index }.enter? (.capture index) rest

/- Go inside of a group with a name. -/
def captureNamed? (r : Reader) (closing : Char) (cs : List Char) :
    Option (Reader × List Char) :=
  match cs.span fun c => Text.isWordChar c with
  | ([], _) => none
  | (name, c :: rest) =>
      if c = closing then
        { r with names := (name, r.groupCount + 1) :: r.names }.capture? rest
      else
        none
  | (_, []) => none

/- The flags that letters set, or clear after a hyphen. -/
def readFlags? :
    (on : Bool) → Flags → List Char → Option (Flags × List Char)
| _, _, [] => none
| on, flags, 'i' :: rest => readFlags? on { flags with ignoreCase := on } rest
| on, flags, 'm' :: rest => readFlags? on { flags with multiLine := on } rest
| on, flags, 's' :: rest => readFlags? on { flags with dotAll := on } rest
| on, flags, 'U' :: rest => readFlags? on { flags with swapGreed := on } rest
| on, flags, 'x' :: rest => readFlags? on { flags with verbose := on } rest
| on, flags, 'u' :: rest => if on then readFlags? on flags rest else none
| true, flags, '-' :: rest => readFlags? false flags rest
| _, flags, cs => some (flags, cs)

/- What follows an opening parenthesis. -/
def openGroup? (r : Reader) : List Char → Option (Reader × List Char)
| '?' :: ':' :: rest => r.enter? .plain rest
| '?' :: '=' :: rest => r.enter? (.look .ahead true) rest
| '?' :: '!' :: rest => r.enter? (.look .ahead false) rest
| '?' :: '<' :: '=' :: rest => r.enter? (.look .behind true) rest
| '?' :: '<' :: '!' :: rest => r.enter? (.look .behind false) rest
| '?' :: '>' :: rest => r.enter? .atomic rest
| '?' :: '<' :: rest => r.captureNamed? '>' rest
| '?' :: 'P' :: '<' :: rest => r.captureNamed? '>' rest
| '?' :: 'P' :: '=' :: rest => do
    let (name, rest) ← readUpTo? ')' rest
    return (← r.referNamed? name, rest)
| '?' :: '\'' :: rest => r.captureNamed? '\'' rest
| '?' :: ')' :: _ | '?' :: '-' :: ')' :: _ | '?' :: '-' :: ':' :: _ =>
    none
| '?' :: rest =>
    match readFlags? true r.flags rest with
    | some (flags, ')' :: rest) =>
        some ({ r with flags := flags }.push .empty, rest)
    | some (flags, ':' :: rest) => do
        let (inside, rest) ← r.enter? .plain rest
        return ({ inside with flags := flags }, rest)
    | _ => none
| rest => r.capture? rest

/-
  The present level may end.  Where it has a single branch,
  groups that have names so far must not have been referred
  to by their numbers.
-/
def mayEnd (r : Reader) : Bool :=
  !r.level.branches.isEmpty || r.names.isEmpty || !r.usesNumbers

/- Leave the innermost group. -/
def closeGroup? (r : Reader) : Option Reader :=
  match r.outer, r.mayEnd with
  | g :: outer, true =>
      let body := r.level.value
      some
        { r with
          level := g.level.push (g.enclosure.close body)
          outer := outer
          flags := g.enclosure.flagsAfter g.flags r.flags
          extents := g.enclosure.extents body ++ r.extents }
  | _, _ => none

------------------------------------------------------------
-- Escapes
------------------------------------------------------------

/- The group name between a pair of signs. -/
def readName? : List Char → Option (List Char × List Char)
| '<' :: rest => readUpTo? '>' rest
| '\'' :: rest => readUpTo? '\'' rest
| _ => none

/- The edges of words that have a name. -/
def namedEdge? (name : String) : Option Assertion :=
  match name with
  | "start" => some .wordStart
  | "end" => some .wordEnd
  | "start-half" => some .beforeWord
  | "end-half" => some .afterWord
  | _ => none

/- The expression matches from here on. -/
def sees (e : Expr) : Expr :=
  .look .ahead true e

/- Only line breaks are left of the text. -/
def beforeLastBreaks : Expr :=
  sees
    (.ofPieces
      [.loop (.char false '\n') 0 none true, .assertion .textEnd])

/- What follows a backslash. -/
def escape? (r : Reader) : List Char → Option (Reader × List Char)
| 'A' :: rest => some (r.push (.assertion .textStart), rest)
| 'z' :: rest => some (r.push (.assertion .textEnd), rest)
| 'G' :: rest => some (r.push (sees (.assertion .textStart)), rest)
| 'K' :: rest => some (r.push (sees .empty), rest)
| 'O' :: rest => some (r.push (.set false .all), rest)
| 'Z' :: rest => some (r.push beforeLastBreaks, rest)
| 'b' :: '\x7b' :: rest => do
    let (name, rest) ← readUpTo? '\x7d' rest
    return (r.push (.assertion (← namedEdge? (String.ofList name))), rest)
| 'B' :: '\x7b' :: _ => none
| 'b' :: rest => some (r.push (.assertion .wordEdge), rest)
| 'B' :: rest => some (r.push (.assertion .noWordEdge), rest)
| '<' :: rest => some (r.push (.assertion .wordStart), rest)
| '>' :: rest => some (r.push (.assertion .wordEnd), rest)
| 'k' :: rest => do
    let (name, rest) ← readName? rest
    return (← r.referNamed? name, rest)
| cs =>
    match readNumber? cs, readCoded? cs with
    | some (index, rest), _ =>
        some ({ r with usesNumbers := true }.refer index, rest)
    | none, some (c, rest) =>
        some (r.push (.char r.flags.ignoreCase c), rest)
    | none, none => do
        let (item, rest) ← readEscaped? cs
        let piece :=
          match item with
          | .char c => Expr.char false c
          | .set s => Expr.set r.flags.ignoreCase s
        return (r.push piece, rest)

------------------------------------------------------------
-- Steps
------------------------------------------------------------

/- Any character, or any but a line break. -/
def dot (flags : Flags) : Expr :=
  .set false
    (if flags.dotAll then .all else .complement (.single '\n'))

/- Read one piece, quantifier, or sign of a group. -/
def step? (r : Reader) : Char → List Char → Option (Reader × List Char)
| '(', rest => r.openGroup? rest
| ')', rest => r.closeGroup?.map (·, rest)
| '|', rest =>
    let level :=
      ⟨r.level.branch :: r.level.branches, [], false⟩
    some ({ r with level := level }, rest)
| '*', rest => r.repeatLatest? 0 none rest
| '+', rest => r.repeatLatest? 1 none rest
| '?', rest => r.repeatLatest? 0 (some 1) rest
| '\x7b', rest =>
    match r.level.fresh, readBounds? rest with
    | true, some ((least, most), rest) => r.repeatLatest? least most rest
    | _, _ => some (r.push (.char r.flags.ignoreCase '\x7b'), rest)
| '[', rest => do
    let (s, rest) ← SetReader.read? rest
    return (r.push (.set r.flags.ignoreCase s), rest)
| '\\', rest => r.escape? rest
| '.', rest => some (r.push (dot r.flags), rest)
| '^', rest =>
    let a := if r.flags.multiLine then .lineStart else .textStart
    some (r.push (.assertion a), rest)
| '$', rest =>
    let a := if r.flags.multiLine then .lineEnd else .textEnd
    some (r.push (.assertion a), rest)
| c, rest => some (r.push (.char r.flags.ignoreCase c), rest)

/- Read a text to its end, with a bound on the steps. -/
def run? : Nat → Reader → List Char → Option Reader
| 0, _, _ => none
| fuel + 1, r, cs => do
    match ← r.skip? cs with
    | [] => return r
    | c :: cs =>
        let (r, rest) ← r.step? c cs
        run? fuel r rest

/- Before the first character. -/
def start (ignoreCase : Bool) : Reader :=
  ⟨.start, [], ⟨ignoreCase, false, false, false, false⟩, 0, [], [], false⟩

end Reader

/-
  The expression that a text writes.  Back references are to
  groups that the expression has.
-/
def Expr.read? (ignoreCase : Bool) (cs : List Char) : Option Expr := do
  let r ← Reader.run? (cs.length + 1) (.start ignoreCase) cs
  let e := r.level.value
  if r.outer.isEmpty && r.mayEnd
      && e.references.all (fun i => 0 < i && i ≤ r.groupCount) then
    return e
  else
    none

end TreeQuery.Pattern
