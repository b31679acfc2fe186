import TreeQuery.Selector.Basic
import TreeQuery.Text.Escape

/-
  The canonical text of a selector.

  Key definitions include:
    * `Comparison.sign`
    * `Combinator.sign`
    * `Selector.text`
-/

namespace TreeQuery

variable {E : Engine}

------------------------------------------------------------
-- Parts
------------------------------------------------------------

/- The text of a name test. -/
def TagSelector.text : TagSelector → String
| .name s => s
| .anyNamespace l => "*|" ++ l
| .namespaceOnly q => q ++ "|*"
| .qualified q l => q ++ "|" ++ l

/- The operator of a comparison. -/
def Comparison.sign : Comparison → String
| .equal => "="
| .notEqual => "!="
| .startsWith => "^="
| .endsWith => "$="
| .contains => "*="

/- The operator and the value of an attribute test. -/
def AttributeTest.text : AttributeTest E → String
| .present => ""
| .compare c value => c.sign ++ Text.quoted value
| .matchesPattern p => "~=" ++ p.source

/- The name of an index test. -/
def IndexTest.name : IndexTest → String
| .lessThan => "lt"
| .greaterThan => "gt"
| .equalTo => "eq"

/- The name of a kind of positions. -/
def Position.name : Position → String
| .child => "child"
| .lastChild => "last-child"
| .ofType => "of-type"
| .lastOfType => "last-of-type"

/- The name of the pseudo-class for the first position. -/
def Position.firstName : Position → String
| .child => "first-child"
| .ofType => "first-of-type"
| .lastChild => "last-child"
| .lastOfType => "last-of-type"

/- The text of a position test. -/
def Position.text (kind : Position) (formula : Formula) : String :=
  if formula = .first then ":" ++ kind.firstName
  else ":nth-" ++ kind.name ++ "(" ++ formula.text ++ ")"

/- The end of the name of a text predicate. -/
def TextSource.ending : TextSource → String
| .text => ""
| .own => "Own"
| .whole => "WholeText"
| .wholeOwn => "WholeOwnText"

/- The sign of a combinator with the blanks around it. -/
def Combinator.sign : Combinator → String
| .descendant => " "
| .child => " > "
| .adjacent => " + "
| .sibling => " ~ "

/- The sign of a combinator that stands first. -/
def Combinator.leadingSign? : Combinator → Option String
| .descendant => none
| .child => some "> "
| .adjacent => some "+ "
| .sibling => some "~ "

------------------------------------------------------------
-- Selectors
------------------------------------------------------------

namespace Selector

/- The selector is the scope itself. -/
def isScope : Selector E → Bool
| .scope => true
| _ => false

/-
  The left operand of a combinator with its sign.  The scope
  is left out before a sign that can stand first.
-/
def operandText (left : Selector E) (c : Combinator) (leftText : String) :
    String :=
  match left.isScope, c.leadingSign? with
  | true, some sign => sign
  | _, _ => leftText ++ c.sign

mutual

/- The canonical text of a selector. -/
def text : Selector E → String
| .universal => "*"
| .tag test => test.text
| .id value => "#" ++ value
| .className name => "." ++ name
| .attr name test => "[" ++ name ++ test.text ++ "]"
| .attrStarting start => "[^" ++ start ++ "]"
| .root => ":root"
| .scope => ":scope"
| .index test n _ => ":" ++ test.name ++ "(" ++ toString n ++ ")"
| .position kind formula => kind.text formula
| .onlyChild => ":only-child"
| .onlyOfType => ":only-of-type"
| .empty => ":empty"
| .containsText source needle =>
    ":contains" ++ source.ending ++ "(" ++ Text.quoted needle ++ ")"
| .matchesText source pattern =>
    ":matches" ++ source.ending ++ "(" ++ pattern.source ++ ")"
| .compound parts => partsText parts
| .group branches => branchesText branches
| .not inner => ":not(" ++ inner.text ++ ")"
| .is inner => ":is(" ++ inner.text ++ ")"
| .has inner => ":has(" ++ inner.text ++ ")"
| .combine c left right => operandText left c left.text ++ right.text

/- The texts of parts, one directly after the other. -/
def partsText : List (Selector E) → String
| [] => ""
| part :: parts => part.text ++ partsText parts

/- The texts of branches, with commas between them. -/
def branchesText : List (Selector E) → String
| [] => ""
| [branch] => branch.text
| branch :: branches => branch.text ++ ", " ++ branchesText branches

end

end Selector

end TreeQuery
