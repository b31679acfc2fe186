import TreeQuery.Text.Blank
import TreeQuery.Tree.Walk

/-
  The texts of nodes, and the values of attributes.

  The string value of an element or document is the text
  below it in document order; comments do not contribute.

  Key definitions include:
    * `normalizeSpaces`
    * `Tree.stringValue`
    * `Tree.wholeOwnText`
    * `Tree.attributeValue?`
    * `Tree.hasClass`
    * `Tree.hasAttributeStarting`
-/

namespace TreeQuery

/- A string with its blanks normalised. -/
def normalizeSpaces (s : String) : String :=
  String.ofList (Text.normalizeBlanks s.toList)

namespace Tree

------------------------------------------------------------
-- Texts
------------------------------------------------------------

/- The text that a text node holds. -/
def textPart? (t : Tree) : Node → Option String
| .path steps =>
    match t.subtree? steps with
    | some (.text value) => some value
    | _ => none
| .attr .. => none

/-
  The value of an attribute, the text of a text or comment,
  and the text below an element or document.
-/
def stringValue (t : Tree) (n : Node) : String :=
  match n with
  | .attr owner index =>
      ((t.attribute? owner index).map (·.value)).getD ""
  | .path steps =>
      match t.subtree? steps with
      | some (.text value) | some (.comment value) => value
      | some (.document _) | some (.element ..) =>
          String.join ((t.descendantsOrSelf n).filterMap t.textPart?)
      | none => ""

/- The text of a node as stored. -/
def wholeText (t : Tree) (n : Node) : String :=
  t.stringValue n

/- The text of a node with its blanks normalised. -/
def textOf (t : Tree) (n : Node) : String :=
  normalizeSpaces (t.wholeText n)

/- The texts among the children of a node, as stored. -/
def wholeOwnText (t : Tree) (n : Node) : String :=
  String.join ((t.children n).filterMap t.textPart?)

/- The texts among the children, with blanks normalised. -/
def ownText (t : Tree) (n : Node) : String :=
  normalizeSpaces (t.wholeOwnText n)

------------------------------------------------------------
-- Attributes
------------------------------------------------------------

/- The value of the first attribute with a name, up to case. -/
def attributeValue? (t : Tree) (n : Node) (name : String) : Option String :=
  let isNamed (a : Node) : Bool :=
    (t.name? a).any (·.isWritten name)
  ((t.attributes n).find? isNamed).map t.stringValue

/- The node has an attribute with a name, up to case. -/
def hasAttribute (t : Tree) (n : Node) (name : String) : Bool :=
  (t.attributeValue? n name).isSome

/- The value of the attribute `id`. -/
def id? (t : Tree) (n : Node) : Option String :=
  t.attributeValue? n "id"

/- A class is among the words of the attribute `class`, up to case. -/
def hasClass (t : Tree) (n : Node) (name : String) : Bool :=
  (t.attributeValue? n "class").any fun value =>
    (Text.words value.toList).any (Text.equalIgnoringCase · name.toList)

/- Some attribute name starts with a text, up to case. -/
def hasAttributeStarting (t : Tree) (n : Node) (start : String) : Bool :=
  ((t.attributes n).filterMap t.name?).any fun name =>
    Text.headIgnoringCase start.toList name.text.toList

end Tree

end TreeQuery
