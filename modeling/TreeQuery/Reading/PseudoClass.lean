import TreeQuery.Reading.AttributeTest
import TreeQuery.Text.Lowercase
import TreeQuery.Tree.Content

/-
  Pseudo-classes: a colon, a name and, for most of them, an
  argument between parentheses.

  A table gives the meaning of every name.  Arguments are read
  without the blanks around them; a selector as an argument is
  read by a reader that is given.

  Key definitions include:
    * `PseudoClass`
    * `pseudoClass?`
    * `Scan.argument`
    * `Scan.pseudoClass`

  Main statement:
    * `Scan.consumes_pseudoClass`
-/

namespace TreeQuery

variable {E : Engine}

------------------------------------------------------------
-- Table
------------------------------------------------------------

/- What a selector as an argument is asked for. -/
inductive Nesting where
| has
| not
| is
deriving DecidableEq, Repr

/- The selector that wraps an argument. -/
def Nesting.wrap : Nesting → Selector E → Selector E
| .has, inner => .has inner
| .not, inner => .not inner
| .is, inner => .is inner

/- The meanings of pseudo-classes, by their arguments. -/
inductive PseudoClass (E : Engine) where
| plain (s : Selector E)
| index (test : IndexTest)
| position (kind : Position)
| nested (nesting : Nesting)
| contains (source : TextSource)
| matchesText (source : TextSource)

/- The names of pseudo-classes with their meanings. -/
def pseudoClasses (E : Engine) : List (String × PseudoClass E) :=
  [("root", .plain .root),
   ("scope", .plain .scope),
   ("empty", .plain .empty),
   ("first-child", .plain (.position .child .first)),
   ("last-child", .plain (.position .lastChild .first)),
   ("first-of-type", .plain (.position .ofType .first)),
   ("last-of-type", .plain (.position .lastOfType .first)),
   ("only-child", .plain .onlyChild),
   ("only-of-type", .plain .onlyOfType),
   ("lt", .index .lessThan),
   ("gt", .index .greaterThan),
   ("eq", .index .equalTo),
   ("nth-child", .position .child),
   ("nth-last-child", .position .lastChild),
   ("nth-of-type", .position .ofType),
   ("nth-last-of-type", .position .lastOfType),
   ("has", .nested .has),
   ("not", .nested .not),
   ("is", .nested .is),
   ("contains", .contains .text),
   ("containsown", .contains .own),
   ("containswholetext", .contains .whole),
   ("containswholeowntext", .contains .wholeOwn),
   ("matches", .matchesText .text),
   ("matchesown", .matchesText .own),
   ("matcheswholetext", .matchesText .whole),
   ("matcheswholeowntext", .matchesText .wholeOwn)]

/- The meaning of a name in small letters. -/
def pseudoClass? (E : Engine) (name : String) : Option (PseudoClass E) :=
  (pseudoClasses E).lookup name

namespace Scan

------------------------------------------------------------
-- Arguments
------------------------------------------------------------

/- Read an argument with its parentheses. -/
def parenthesized (name : String) : Scan Cursor := do
  if (← peek?) = some '(' then
    balanced '(' ')' .unbalancedParenthesis
  else
    fail (.expectedArgument name (← isAtEnd))

/- Read an argument, without the blanks around it. -/
def argument (name : String) : Scan Cursor := do
  let part ← parenthesized name
  if (Text.trim part.rest).isEmpty then
    failAt part.offset (.missingArgument name)
  else
    return { part.skipBlanks with rest := Text.trim part.rest }

/- The text of an argument. -/
def argumentText (part : Cursor) : String :=
  String.ofList part.rest

/- An index that fits 64 bits. -/
def readIndex? (digits : List Char) : Option Nat :=
  (Text.readDigits? digits).filter (· < UInt64.size)

/- Read an index. -/
def indexArgument (name : String) : Scan Nat := do
  let part ← argument name
  match readIndex? part.rest with
  | some n => return n
  | none => failAt part.offset (.invalidIndex name (argumentText part))

/- Read a formula for positions. -/
def formulaArgument (name : String) : Scan Formula := do
  let part ← argument name
  match Formula.parse? (argumentText part) with
  | some formula => return formula
  | none => failAt part.offset (.invalidFormula name (argumentText part))

/- Read a quoted text to the end of an argument. -/
def quotedArgument (resolve : Bool) : Scan String := do
  let text ← quoted resolve
  expectEnd .quotedArgument
  return text

/-
  Read a text that is not empty, quoted or bare, and give its
  offset with it.
-/
def textArgument (name : String) (resolve : Bool) : Scan (Nat × String) := do
  let part ← argument name
  if part.peek?.any isQuote then
    let text ← within part (quotedArgument resolve)
    if text.isEmpty then failAt part.offset (.emptyArgument name)
    else return (part.offset, text)
  else if resolve then
    return (part.offset, String.ofList (Text.dropBackslashes part.rest))
  else
    return (part.offset, argumentText part)

/-
  The needle for a text: for normalised sources in small
  letters and with normalised blanks.
-/
def needle (source : TextSource) (text : String) : String :=
  if source.isNormalized then
    String.ofList
      (Text.lowercase (Text.normalizeBlanks text.toList))
  else
    text

------------------------------------------------------------
-- Pseudo-Classes
------------------------------------------------------------

/-
  The candidates of an index: what matches the parts before
  it, and every element if there are none.
-/
def indexCandidate (parts : List (Selector E)) : Selector E :=
  if parts.isEmpty then .universal else .ofParts parts

/-
  Read the argument that a meaning asks for.  `nested` reads
  selectors, and `parts` are the parts before.
-/
def meaning
    (nested : Cursor → Except Fault (Selector E))
    (parts : List (Selector E))
    (name : String) : PseudoClass E → Scan (Selector E)
| .plain s => pure s
| .index test => do
    return .index test (← indexArgument name) (indexCandidate parts)
| .position kind => do
    return .position kind (← formulaArgument name)
| .nested nesting => do
    let part ← argument name
    return nesting.wrap (← ofExcept (nested part))
| .contains source => do
    let (_, text) ← textArgument name true
    return .containsText source (needle source text)
| .matchesText source => do
    let (start, text) ← textArgument name false
    return .matchesText source (← pattern E start source.isNormalized text)

/- Read the name of a pseudo-class that starts at an offset. -/
def pseudoClassName (start : Nat) : Scan String := do
  if (← peek?) = some ':' then failAt start .pseudoElement
  else Text.asciiLowerString <$> identifier

/- Read a pseudo-class with its colon. -/
def pseudoClass
    (nested : Cursor → Except Fault (Selector E))
    (parts : List (Selector E)) : Scan (Selector E) := do
  let start ← offset
  advance
  let name ← pseudoClassName start
  match pseudoClass? E name with
  | some known => meaning nested parts name known
  | none => failAt start (.unknownPseudoClass name)

------------------------------------------------------------
-- Progress
------------------------------------------------------------

theorem advances_parenthesized (name : String) :
    Advances (parenthesized name) := by
  unfold parenthesized
  refine advances_peek?.bind fun next => Advances.ite ?_ ?_
  · exact advances_balanced _ _ _
  · exact advances_isAtEnd.bind fun _ => advances_fail _

theorem advances_argument (name : String) :
    Advances (argument name) := by
  unfold argument
  refine (advances_parenthesized name).bind fun part => Advances.ite ?_ ?_
  · exact advances_failAt _ _
  · exact Advances.pure _

theorem advances_indexArgument (name : String) :
    Advances (indexArgument name) := by
  unfold indexArgument
  refine (advances_argument name).bind fun part => ?_
  split
  · exact Advances.pure _
  · exact advances_failAt _ _

theorem advances_formulaArgument (name : String) :
    Advances (formulaArgument name) := by
  unfold formulaArgument
  refine (advances_argument name).bind fun part => ?_
  split
  · exact Advances.pure _
  · exact advances_failAt _ _

theorem advances_textArgument (name : String) (resolve : Bool) :
    Advances (textArgument name resolve) := by
  unfold textArgument
  refine (advances_argument name).bind fun part => Advances.ite ?_ ?_
  · refine (advances_within _ _).bind fun text => Advances.ite ?_ ?_
    · exact advances_failAt _ _
    · exact Advances.pure _
  · refine Advances.ite ?_ ?_
    · exact Advances.pure _
    · exact Advances.pure _

theorem advances_pattern
    (offset : Nat)
    (ignoreCase : Bool)
    (source : String) :
    Advances (pattern E offset ignoreCase source) := by
  unfold pattern
  split
  · exact Advances.pure _
  · exact advances_failAt _ _

theorem advances_meaning
    (nested : Cursor → Except Fault (Selector E))
    (parts : List (Selector E))
    (name : String)
    (known : PseudoClass E) :
    Advances (meaning nested parts name known) := by
  cases known with
  | plain s => exact Advances.pure s
  | index test =>
      exact (advances_indexArgument name).bind fun _ => Advances.pure _
  | position kind =>
      exact (advances_formulaArgument name).bind fun _ => Advances.pure _
  | nested nesting =>
      exact (advances_argument name).bind fun _ =>
        (advances_ofExcept _).bind fun _ => Advances.pure _
  | contains source =>
      exact (advances_textArgument name true).bind fun _ =>
        Advances.pure _
  | matchesText source =>
      exact (advances_textArgument name false).bind fun _ =>
        (advances_pattern _ _ _).bind fun _ => Advances.pure _

theorem consumes_pseudoClassName (start : Nat) :
    Consumes (pseudoClassName start) := by
  unfold pseudoClassName
  refine Consumes.bind_right advances_peek? fun next => ?_
  split
  · exact consumes_failAt _ _
  · exact consumes_identifier.map _

/- The name at least is read. -/
theorem consumes_pseudoClass
    (nested : Cursor → Except Fault (Selector E))
    (parts : List (Selector E)) :
    Consumes (pseudoClass nested parts) := by
  unfold pseudoClass
  refine Consumes.bind_right advances_offset fun start => ?_
  refine Consumes.bind_right advances_advance fun _ => ?_
  refine Consumes.bind_left (consumes_pseudoClassName start) fun name => ?_
  split
  · exact advances_meaning _ _ _ _
  · exact advances_failAt _ _

end Scan

end TreeQuery
