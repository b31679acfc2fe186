import TreeQuery.Reading.Token
import TreeQuery.Selector.Rendering

/-
  Attribute tests between square brackets.

  Between the brackets stand a name and, if the value is to
  be tested, an operator and a value, quoted or bare.  A caret
  before the name asks for a name that starts with it.

  Key definitions include:
    * `AttributeOperator`
    * `Scan.attributeName`
    * `Scan.attributeValue`
    * `Scan.attributeTest`

  Main statement:
    * `Scan.consumes_attributeTest`
-/

namespace TreeQuery

variable {E : Engine}

------------------------------------------------------------
-- Operators
------------------------------------------------------------

/- Operators before an attribute value. -/
inductive AttributeOperator where
| compare (comparison : Comparison)
| matchesPattern
deriving DecidableEq, Repr

namespace AttributeOperator

/- The text of an operator. -/
def sign : AttributeOperator → String
| .compare c => c.sign
| .matchesPattern => "~="

/- All operators, in the order in which they are tried. -/
def all : List AttributeOperator :=
  [.compare .notEqual, .compare .startsWith, .compare .endsWith,
   .compare .contains, .matchesPattern, .compare .equal]

/- An empty value makes sense for the operator. -/
def allowsEmpty : AttributeOperator → Bool
| .compare .equal | .compare .notEqual => true
| _ => false

end AttributeOperator

namespace Scan

/-
  Read the first of several operators that comes next, if
  there is one.
-/
def operator? : List AttributeOperator → Scan (Option AttributeOperator)
| [] => pure none
| op :: ops => do
    if ← chomp op.sign then pure (some op) else operator? ops

------------------------------------------------------------
-- Names
------------------------------------------------------------

/-
  Read the parts of a name after its first one.  A part
  follows a colon and begins with a character of names.
-/
def nameParts (name : String) (c : Cursor) :
    EStateM.Result Fault Cursor String :=
  match c.peek?, c.peekNth? 1 with
  | some ':', some d =>
      if isIdentifierChar d then
        match h : identifier c.advance with
        | .ok part e =>
            have := consumes_identifier _ _ _ h
            have := (Cursor.reaches_advance c).length_le
            nameParts (name ++ ":" ++ part) e
        | .error fault e => .error fault e
      else
        .ok name c
  | _, _ => .ok name c
termination_by c.rest.length
decreasing_by omega

/- Read the name of an attribute. -/
def attributeName : Scan String := do
  nameParts (← identifier)

------------------------------------------------------------
-- Values
------------------------------------------------------------

/- Read a value in quotes, after which nothing may follow. -/
def quotedValue (resolve : Bool) : Scan String := do
  let value ← quoted resolve
  let _ ← skipBlanks
  expectEnd .attributeValue
  return value

/- Read a bare value, which ends before the last blanks. -/
def bareValue (resolve : Bool) : Scan String := do
  let raw := Text.trimEnd (← remainder)
  return String.ofList (if resolve then Text.dropBackslashes raw else raw)

/-
  Read the value of an attribute.  Regular expressions keep
  their backslashes.
-/
def attributeValue (op : AttributeOperator) : Scan String := do
  let resolve := op != .matchesPattern
  if (← peek?).any isQuote then quotedValue resolve
  else bareValue resolve

/- The pattern that a text writes for an engine. -/
def pattern
    (E : Engine)
    (offset : Nat)
    (ignoreCase : Bool)
    (source : String) : Scan (Pattern E) :=
  match Pattern.read? E ignoreCase source with
  | some p => pure p
  | none => failAt offset (.invalidPattern source)

/- The test that an operator and a value make up. -/
def valueTest
    (E : Engine)
    (op : AttributeOperator)
    (offset : Nat)
    (value : String) : Scan (AttributeTest E) :=
  match op with
  | .compare c => pure (.compare c value)
  | .matchesPattern => .matchesPattern <$> pattern E offset false value

------------------------------------------------------------
-- Tests
------------------------------------------------------------

/- Read an operator and a value after a name. -/
def operatorAndValue (E : Engine) (name : String) :
    Scan (AttributeTest E) := do
  match ← operator? AttributeOperator.all with
  | none => fail (.expectedOperator name)
  | some op => do
      let _ ← skipBlanks
      let start ← offset
      let value ← attributeValue op
      if value.isEmpty && !op.allowsEmpty then
        failAt start (.emptyValue name op.sign)
      else
        valueTest E op start value

/- Read a name and a test of its value. -/
def namedTest (E : Engine) : Scan (Selector E) := do
  let name ← attributeName
  let _ ← skipBlanks
  if ← isAtEnd then
    return Selector.ofAttribute name .present
  else
    return Selector.ofAttribute name (← operatorAndValue E name)

/- Read the start of a name. -/
def startTest (E : Engine) : Scan (Selector E) := do
  let start ← identifier
  let _ ← skipBlanks
  expectEnd .attributeStart
  return .attrStarting (Text.asciiLowerString start)

/- Read what stands between square brackets. -/
def bracketed (E : Engine) : Scan (Selector E) := do
  let _ ← skipBlanks
  if ← chomp "^" then startTest E else namedTest E

/- Read an attribute test with its brackets. -/
def attributeTest (E : Engine) : Scan (Selector E) := do
  let part ← balanced '[' ']' .unterminatedAttribute
  within part (bracketed E)

/- The brackets at least are read. -/
theorem consumes_attributeTest : Consumes (attributeTest E) :=
  Consumes.bind_left
    (consumes_balanced '[' ']' .unterminatedAttribute)
    fun part => advances_within part (bracketed E)

/- Reading an attribute test only moves forward. -/
theorem advances_attributeTest : Advances (attributeTest E) :=
  Advances.bind
    (advances_balanced '[' ']' .unterminatedAttribute)
    fun part => advances_within part (bracketed E)

end Scan

end TreeQuery
