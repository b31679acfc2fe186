import TreeQuery.Text.Ascii

/-
  How attribute values are compared, and which nodes a query
  may return.

  Key definitions include:
    * `CasePolicy`
    * `CasePolicy.equal`
    * `CasePolicy.startsWith`
    * `CasePolicy.endsWith`
    * `CasePolicy.contains`
    * `Options`
-/

namespace TreeQuery

------------------------------------------------------------
-- Case Policy
------------------------------------------------------------

/- Whether values are compared with regard to ASCII case. -/
inductive CasePolicy where
| sensitive
| insensitive
deriving DecidableEq, Repr

namespace CasePolicy

/- The value is the expected one. -/
def equal (p : CasePolicy) (value expected : String) : Bool :=
  match p with
  | .sensitive => value == expected
  | .insensitive =>
      Text.equalIgnoringCase value.toList expected.toList

/- The value starts with the expected text. -/
def startsWith (p : CasePolicy) (value expected : String) : Bool :=
  match p with
  | .sensitive => expected.toList.isPrefixOf value.toList
  | .insensitive =>
      Text.headIgnoringCase expected.toList value.toList

/- The value ends with the expected text. -/
def endsWith (p : CasePolicy) (value expected : String) : Bool :=
  match p with
  | .sensitive => expected.toList.isSuffixOf value.toList
  | .insensitive =>
      Text.tailIgnoringCase expected.toList value.toList

/- The expected text stands in the value. -/
def contains (p : CasePolicy) (value expected : String) : Bool :=
  match p with
  | .sensitive => Text.occursIn expected.toList value.toList
  | .insensitive =>
      Text.occursIn (Text.asciiLower expected.toList)
        (Text.asciiLower value.toList)

end CasePolicy

------------------------------------------------------------
-- Options
------------------------------------------------------------

/-
  Options of a query: the case policy for attribute values,
  and whether the node at which a query starts may itself be
  in its result.
-/
structure Options where
  valueCase : CasePolicy := .sensitive
  includeRoot : Bool := true
deriving DecidableEq, Repr

end TreeQuery
