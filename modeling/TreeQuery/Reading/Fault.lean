/-
  What is wrong with a text that is no selector.

  A fault has a cause and the byte offset at which it was
  found.  The code and the wording of every cause are given
  here and nowhere else.

  Key definitions include:
    * `Code`
    * `Cause`
    * `Cause.code`
    * `Cause.message`
    * `Fault`
    * `ParseError`
    * `QueryError`
-/

namespace TreeQuery

------------------------------------------------------------
-- Codes
------------------------------------------------------------

/- Classes of causes. -/
inductive Code where
| unexpectedCharacter
| unexpectedEnd
| unterminatedString
| unterminatedAttribute
| unbalancedParenthesis
| unknownPseudoClass
| invalidNthFormula
| invalidIndex
| invalidRegex
| emptySelector
| emptyArgument
| danglingEscape
deriving DecidableEq, Repr

namespace Code

/- All codes. -/
def all : List Code :=
  [.unexpectedCharacter, .unexpectedEnd, .unterminatedString,
   .unterminatedAttribute, .unbalancedParenthesis,
   .unknownPseudoClass, .invalidNthFormula, .invalidIndex,
   .invalidRegex, .emptySelector, .emptyArgument, .danglingEscape]

/- The name of a code. -/
def name : Code → String
| .unexpectedCharacter => "unexpected-character"
| .unexpectedEnd => "unexpected-end"
| .unterminatedString => "unterminated-string"
| .unterminatedAttribute => "unterminated-attribute"
| .unbalancedParenthesis => "unbalanced-parenthesis"
| .unknownPseudoClass => "unknown-pseudo-class"
| .invalidNthFormula => "invalid-nth-formula"
| .invalidIndex => "invalid-index"
| .invalidRegex => "invalid-regex"
| .emptySelector => "empty-selector"
| .emptyArgument => "empty-argument"
| .danglingEscape => "dangling-escape"

/- The code with a name. -/
def ofName? (name : String) : Option Code :=
  all.find? (·.name == name)

end Code

------------------------------------------------------------
-- Causes
------------------------------------------------------------

/- Where a text should have ended. -/
inductive EndOf where
| attributeStart
| attributeValue
| quotedArgument
deriving DecidableEq, Repr

/- The words for the end of a part. -/
def EndOf.words : EndOf → String
| .attributeStart => "after attribute prefix"
| .attributeValue => "after attribute value"
| .quotedArgument => "after quoted argument"

/-
  Causes of faults.  A cause that names what was found holds
  nothing where the text ended.
-/
inductive Cause where
| expectedIdentifier (found : Option Char)
| danglingEscape
| expectedQuote
| unterminatedString (quote : Char)
| expectedBracket (opening : Char)
| unclosed (code : Code) (opening closing : Char)
| emptySelector
| expectedSelector (found : Option Char)
| expectedSelectorAfter (sign : Char)
| unexpected (found : Char)
| unexpectedAfter (found : Char) (place : EndOf)
| expectedOperator (name : String)
| emptyValue (name operator : String)
| pseudoElement
| unknownPseudoClass (name : String)
| expectedArgument (name : String) (atEnd : Bool)
| missingArgument (name : String)
| emptyArgument (name : String)
| invalidIndex (name argument : String)
| invalidFormula (name argument : String)
| invalidPattern (source : String)
| stated (code : Code) (message : String)
deriving DecidableEq, Repr

namespace Cause

/- A closing parenthesis is unbalanced, any other character unexpected. -/
def codeOfFound (found : Char) : Code :=
  if found = ')' then .unbalancedParenthesis else .unexpectedCharacter

/- The code of a cause. -/
def code : Cause → Code
| .expectedIdentifier none => .unexpectedEnd
| .expectedIdentifier (some _) => .unexpectedCharacter
| .danglingEscape => .danglingEscape
| .expectedQuote => .unexpectedCharacter
| .unterminatedString _ => .unterminatedString
| .expectedBracket _ => .unexpectedCharacter
| .unclosed code .. => code
| .emptySelector => .emptySelector
| .expectedSelector none => .unexpectedEnd
| .expectedSelector (some found) => codeOfFound found
| .expectedSelectorAfter _ => .unexpectedEnd
| .unexpected found => codeOfFound found
| .unexpectedAfter .. => .unexpectedCharacter
| .expectedOperator _ => .unexpectedCharacter
| .emptyValue .. => .emptyArgument
| .pseudoElement => .unknownPseudoClass
| .unknownPseudoClass _ => .unknownPseudoClass
| .expectedArgument _ true => .unexpectedEnd
| .expectedArgument _ false => .unexpectedCharacter
| .missingArgument _ => .emptyArgument
| .emptyArgument _ => .emptyArgument
| .invalidIndex .. => .invalidIndex
| .invalidFormula .. => .invalidNthFormula
| .invalidPattern _ => .invalidRegex
| .stated code _ => code

/- The wording of a cause. -/
def message : Cause → String
| .expectedIdentifier none => "expected identifier"
| .expectedIdentifier (some found) =>
    s!"expected identifier, found '{found}'"
| .danglingEscape => "escape at end of input"
| .expectedQuote => "expected quote"
| .unterminatedString quote =>
    s!"unterminated string, expected closing {quote}"
| .expectedBracket opening => s!"expected '{opening}'"
| .unclosed code opening closing =>
    if code = .unterminatedAttribute then
      s!"unterminated attribute selector, expected '{closing}'"
    else
      s!"unbalanced '{opening}', expected '{closing}'"
| .emptySelector => "empty selector"
| .expectedSelector none => "expected selector"
| .expectedSelector (some found) =>
    if found = ')' then s!"unexpected '{found}'"
    else s!"unexpected '{found}', expected selector"
| .expectedSelectorAfter sign => s!"expected selector after '{sign}'"
| .unexpected found => s!"unexpected '{found}'"
| .unexpectedAfter found place => s!"unexpected '{found}' " ++ place.words
| .expectedOperator name =>
    s!"expected attribute operator after '{name}'"
| .emptyValue name operator => s!"empty value for [{name}{operator}]"
| .pseudoElement => "pseudo-elements are not supported"
| .unknownPseudoClass name => s!"unknown pseudo-class ':{name}'"
| .expectedArgument name _ => s!"expected '(' after ':{name}'"
| .missingArgument name => s!":{name}(...) requires an argument"
| .emptyArgument name => s!":{name}(...) requires a non-empty argument"
| .invalidIndex name argument =>
    s!"expected a non-negative integer in ':{name}', found '{argument}'"
| .invalidFormula name argument =>
    s!"invalid nth formula '{argument}' in ':{name}'"
| .invalidPattern source => s!"invalid regex '{source}'"
| .stated _ message => message

/- The cause is a fault in a regular expression. -/
def isPatternFault : Cause → Bool
| .invalidPattern _ => true
| _ => false

end Cause

------------------------------------------------------------
-- Faults and Errors
------------------------------------------------------------

/- A cause and the byte offset at which it was found. -/
structure Fault where
  cause : Cause
  offset : Nat
deriving DecidableEq, Repr

/- A fault of a query. -/
structure ParseError where
  fault : Fault
  query : String
deriving DecidableEq, Repr

/- The full wording of a parse error. -/
def ParseError.message (e : ParseError) : String :=
  let place := s!" at offset {e.fault.offset} in query '{e.query}' "
  e.fault.cause.message ++ place ++ s!"({e.fault.cause.code.name})"

/- Why a query is refused: it is blank, or no selector. -/
inductive QueryError where
| blank
| malformed (error : ParseError)
deriving DecidableEq, Repr

namespace QueryError

/- The full wording of a refusal. -/
def message : QueryError → String
| .blank => "invalid query: query must not be empty"
| .malformed error => error.message

/- The byte offset of a refusal, unless the query is blank. -/
def offset? : QueryError → Option Nat
| .blank => none
| .malformed error => some error.fault.offset

end QueryError

end TreeQuery
