/-
  Numbers in decimal digits.

  Key definitions include:
    * `digitsValue`
    * `readDigits?`
-/

namespace TreeQuery.Text

/- The value of a decimal digit. -/
def digitValue (d : Char) : Nat :=
  d.toNat - '0'.toNat

/- The number that decimal digits write. -/
def digitsValue (digits : List Char) : Nat :=
  digits.foldl (fun n d => n * 10 + digitValue d) 0

/- The number that a text of ASCII digits writes, one at least. -/
def readDigits? (cs : List Char) : Option Nat :=
  if cs.isEmpty || !cs.all Char.isDigit then none
  else some (digitsValue cs)

end TreeQuery.Text
