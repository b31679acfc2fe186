import TreeQuery.Tree.Basic

/-
  A description of a single node for diagnostics.

  Key definitions include:
    * `quoteForDisplay`
    * `Tree.inspect`
-/

namespace TreeQuery

------------------------------------------------------------
-- Quoting
------------------------------------------------------------

/- The lowest hexadecimal digits of a number. -/
def hexText (n : Nat) : String :=
  String.ofList (Nat.toDigits 16 n)

/- A character as it stands between display quotes. -/
def charForDisplay (c : Char) : String :=
  match c with
  | '"' => "\\\""
  | '\\' => "\\\\"
  | '\n' => "\\n"
  | '\t' => "\\t"
  | '\x0d' => "\\r"
  | '\x00' => "\\0"
  | c =>
      if c.toNat < 0x20 || c.toNat == 0x7f then
        "\\u\x7b" ++ hexText c.toNat ++ "\x7d"
      else
        c.toString

/- A string between quotes, with escapes. -/
def quoteForDisplay (s : String) : String :=
  "\"" ++ String.join (s.toList.map charForDisplay) ++ "\""

/- An optional value. -/
def optionForDisplay (value? : Option String) : String :=
  match value? with
  | some value => "Some(" ++ value ++ ")"
  | none => "None"

------------------------------------------------------------
-- Nodes
------------------------------------------------------------

/- A kind, with a capital letter. -/
def Kind.display : Kind → String
| .document => "Document"
| .element => "Element"
| .attr => "Attribute"
| .text => "Text"
| .comment => "Comment"

/- The two parts of a name. -/
def Name.display (n : Name) : String :=
  "QName \x7b prefix: "
    ++ optionForDisplay (n.qualifier.map quoteForDisplay)
    ++ ", local: " ++ quoteForDisplay n.localPart ++ " \x7d"

namespace Tree

/- What a node itself holds: the value of an attribute or a text. -/
def ownValue? (t : Tree) : Node → Option String
| .attr owner index => (t.attribute? owner index).map (·.value)
| .path steps =>
    match t.subtree? steps with
    | some (.text value) | some (.comment value) => some value
    | _ => none

/- The kind, the name and the value of a node, on one line. -/
def inspect (t : Tree) (n : Node) : String :=
  "SimpleNode \x7b kind: "
    ++ ((t.kind? n).map Kind.display).getD ""
    ++ ", name: " ++ optionForDisplay ((t.name? n).map Name.display)
    ++ ", value: "
    ++ optionForDisplay ((t.ownValue? n).map quoteForDisplay)
    ++ " \x7d"

end Tree

end TreeQuery
