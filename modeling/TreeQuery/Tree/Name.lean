import TreeQuery.Text.Ascii

/-
  Names of elements and attributes.

  A name may carry a namespace qualifier, written before a
  colon.  Names are compared up to the case of ASCII letters.

  Key definitions include:
    * `Name`
    * `Name.parse`
    * `Name.text`
    * `Name.tag`
-/

namespace TreeQuery

/- A name with an optional namespace qualifier. -/
structure Name where
  qualifier : Option String
  localPart : String
deriving DecidableEq, Repr

namespace Name

/- A name without a qualifier. -/
def unqualified (localPart : String) : Name :=
  ⟨none, localPart⟩

/- A name with a qualifier. -/
def qualified (qualifier localPart : String) : Name :=
  ⟨some qualifier, localPart⟩

/-
  Divide a text at its first colon.  Where either part would
  be empty the whole text is a name without a qualifier.
-/
def parse (s : String) : Name :=
  match s.toList.span (· != ':') with
  | (before, _ :: after) =>
      if before.isEmpty || after.isEmpty then unqualified s
      else qualified (String.ofList before) (String.ofList after)
  | (_, []) => unqualified s

/- The name as written, with a colon after the qualifier. -/
def text (n : Name) : String :=
  match n.qualifier with
  | some q => q ++ ":" ++ n.localPart
  | none => n.localPart

/- The name as written, in small ASCII letters. -/
def tag (n : Name) : String :=
  Text.asciiLowerString n.text

/- The name as written is the given one, up to case. -/
def isWritten (n : Name) (s : String) : Bool :=
  Text.equalIgnoringCase n.text.toList s.toList

/- The local part is the given one, up to case. -/
def hasLocalPart (n : Name) (s : String) : Bool :=
  Text.equalIgnoringCase n.localPart.toList s.toList

/- The name has a qualifier and it is the given one, up to case. -/
def hasQualifier (n : Name) (s : String) : Bool :=
  n.qualifier.any fun q => Text.equalIgnoringCase q.toList s.toList

end Name

end TreeQuery
