import TreeQuery.Text.Bytes

/-
  Comparison of texts up to the case of ASCII letters, and
  the places at which one text occurs in another.

  Key definitions include:
    * `asciiLower`
    * `equalIgnoringCase`
    * `headIgnoringCase`
    * `tailIgnoringCase`
    * `occursIn`

  Tests of a head or tail cut the longer text at the byte
  length of the shorter one.
-/

namespace TreeQuery.Text

------------------------------------------------------------
-- ASCII Case
------------------------------------------------------------

/- ASCII capitals become small letters; all else is kept. -/
def asciiLower (cs : List Char) : List Char :=
  cs.map Char.toLower

/- `asciiLower` on a string. -/
def asciiLowerString (s : String) : String :=
  String.ofList (asciiLower s.toList)

/- Equality up to the case of ASCII letters. -/
def equalIgnoringCase (xs ys : List Char) : Bool :=
  asciiLower xs == asciiLower ys

@[simp]
theorem equalIgnoringCase_iff
    {xs ys : List Char} :
    equalIgnoringCase xs ys = true ↔
      asciiLower xs = asciiLower ys := by
  simp [equalIgnoringCase]

------------------------------------------------------------
-- Heads and Tails
------------------------------------------------------------

/-
  The first bytes of `cs`, as many as `wanted` has, are
  `wanted` up to the case of ASCII letters.
-/
def headIgnoringCase (wanted cs : List Char) : Bool :=
  match cutAtByte? (byteLength wanted) cs with
  | some (head, _) => equalIgnoringCase head wanted
  | none => false

/-
  The last bytes of `cs`, as many as `wanted` has, are
  `wanted` up to the case of ASCII letters.
-/
def tailIgnoringCase (wanted cs : List Char) : Bool :=
  if byteLength wanted ≤ byteLength cs then
    match cutAtByte? (byteLength cs - byteLength wanted) cs with
    | some (_, tail) => equalIgnoringCase tail wanted
    | none => false
  else
    false

------------------------------------------------------------
-- Occurrences
------------------------------------------------------------

/- `wanted` stands somewhere in the text. -/
def occursIn (wanted : List Char) : List Char → Bool
| [] => wanted.isEmpty
| c :: cs => wanted.isPrefixOf (c :: cs) || occursIn wanted cs

/- Occurrence is being a contiguous part. -/
theorem occursIn_iff_infix
    {wanted cs : List Char} :
    occursIn wanted cs = true ↔ wanted <:+: cs := by
  induction cs with
  | nil => simp [occursIn]
  | cons c cs ih =>
      simp [occursIn, ih, List.infix_cons_iff]

end TreeQuery.Text
