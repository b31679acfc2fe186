import TreeQuery.Pattern.Basic
import TreeQuery.Text.Decimal
import TreeQuery.Text.Hex

/-
  Reading escapes and bracketed sets of characters.

  Every reader takes the text at which it starts and gives
  what it has read with the text after it, or nothing where
  the text is not well-formed.

  A set is read twice.  At first it is spelled out: as many
  brackets have to be closed as are opened, and escapes are
  reduced to a few.  The set is then read from its spelling.

  Key definitions include:
    * `readNumber?`
    * `Escaped`
    * `readEscaped?`
    * `SetReader.spelling?`
    * `SetReader.read?`
-/

namespace TreeQuery.Pattern

------------------------------------------------------------
-- Numbers
------------------------------------------------------------

/- A decimal number that fits 64 bits, with one digit at least. -/
def readNumber? (cs : List Char) : Option (Nat × List Char) := do
  let (digits, rest) := cs.span Char.isDigit
  let n ← Text.readDigits? digits
  if n < UInt64.size then return (n, rest) else none

/- The character that hexadecimal digits name, one at least. -/
def charOfDigits? (digits : List Char) : Option Char :=
  if digits.isEmpty || !digits.all Text.isHexDigit then none
  else Text.charOfCode? (Text.hexNumber digits)

------------------------------------------------------------
-- Escapes
------------------------------------------------------------

/- What an escape stands for inside and outside of brackets. -/
inductive Escaped where
| char (c : Char)
| set (s : CharSet)

/- The hexadecimal digits of ASCII. -/
def hexDigits : CharSet :=
  .union (.range '0' '9') (.union (.range 'a' 'f') (.range 'A' 'F'))

/-
  A character by its code point, in braces with eight digits
  at most, or with a fixed number of digits.
-/
def readCode? (width : Nat) : List Char → Option (Char × List Char)
| '\x7b' :: rest =>
    match rest.span (· != '\x7d') with
    | (digits, _ :: rest) =>
        if digits.length ≤ 8 then do
          return (← charOfDigits? digits, rest)
        else
          none
    | (_, []) => none
| cs =>
    if cs.length < width then none
    else do
      return (← charOfDigits? (cs.take width), cs.drop width)

/- A character by its code point, after the letter for its width. -/
def readCoded? : List Char → Option (Char × List Char)
| 'x' :: rest => readCode? 2 rest
| 'u' :: rest => readCode? 4 rest
| 'U' :: rest => readCode? 8 rest
| _ => none

/-
  The escape after a backslash, other than a code point.  A
  letter or digit without a meaning is refused; any other
  character stands for itself.
-/
def readEscaped? : List Char → Option (Escaped × List Char)
| [] => none
| 'd' :: rest => some (.set .digit, rest)
| 'D' :: rest => some (.set (.complement .digit), rest)
| 's' :: rest => some (.set .space, rest)
| 'S' :: rest => some (.set (.complement .space), rest)
| 'w' :: rest => some (.set .word, rest)
| 'W' :: rest => some (.set (.complement .word), rest)
| 'h' :: rest => some (.set hexDigits, rest)
| 'H' :: rest => some (.set (.complement hexDigits), rest)
| 'a' :: rest => some (.char '\x07', rest)
| 'e' :: rest => some (.char '\x1b', rest)
| 'f' :: rest => some (.char '\x0c', rest)
| 'n' :: rest => some (.char '\n', rest)
| 'r' :: rest => some (.char '\x0d', rest)
| 't' :: rest => some (.char '\t', rest)
| 'v' :: rest => some (.char '\x0b', rest)
| c :: rest => if c.isAlphanum then none else some (.char c, rest)

namespace SetReader

------------------------------------------------------------
-- Names of Sets
------------------------------------------------------------

/- The ASCII sets that have a name inside of brackets. -/
def named? (name : String) : Option CharSet :=
  let digits := CharSet.range '0' '9'
  let lower := CharSet.range 'a' 'z'
  let upper := CharSet.range 'A' 'Z'
  let letters := CharSet.union lower upper
  match name with
  | "alnum" => some (.union letters digits)
  | "alpha" => some letters
  | "ascii" => some (.range '\x00' '\x7f')
  | "blank" => some (.union (.single ' ') (.single '\t'))
  | "cntrl" => some (.union (.range '\x00' '\x1f') (.single '\x7f'))
  | "digit" => some digits
  | "graph" => some (.range '!' '~')
  | "lower" => some lower
  | "print" => some (.range ' ' '~')
  | "punct" =>
      some (.diff (.range '!' '~') (.union letters digits))
  | "space" => some (.union (.single ' ') (.range '\t' '\x0d'))
  | "upper" => some upper
  | "word" => some (.union letters (.union digits (.single '_')))
  | "xdigit" => some hexDigits
  | _ => none

------------------------------------------------------------
-- Spelling
------------------------------------------------------------

/- A character that means something else without a backslash. -/
def hasMeaning (c : Char) : Bool :=
  "\\.+*?()|[]\x7b\x7d^$#&-~".contains c

/- A character as it is spelled inside of brackets. -/
def spell (c : Char) : List Char :=
  if hasMeaning c then ['\\', c] else [c]

/-
  The spelling of the escape after a backslash.  Letters that
  mark a position outside of brackets stand for themselves,
  and the hexadecimal digits are a set of their own.
-/
def spellEscape? : List Char → Option (List Char × List Char)
| [] => none
| 'b' :: rest => some (spell '\x08', rest)
| 'h' :: rest => some ("[0-9A-Fa-f]".toList, rest)
| 'H' :: rest => some ("[^0-9A-Fa-f]".toList, rest)
| c :: cs =>
    if "ABGKkz".contains c then some ([c], cs)
    else
      match readCoded? (c :: cs), readEscaped? (c :: cs) with
      | some (d, rest), _ => some (spell d, rest)
      | none, some (.char d, rest) => some (spell d, rest)
      | none, some (.set _, rest) => some (['\\', c], rest)
      | none, none => none

/-
  The spelling of a set up to the bracket that closes it, with
  that bracket, where `depth` brackets more have been opened.
-/
def spellFrom? :
    (fuel depth : Nat) → List Char → Option (List Char × List Char)
| 0, _, _ => none
| _ + 1, _, [] => none
| fuel + 1, depth, '\\' :: rest => do
    let (escape, rest) ← spellEscape? rest
    let (spelled, rest) ← spellFrom? fuel depth rest
    return (escape ++ spelled, rest)
| fuel + 1, depth, '[' :: rest => do
    let (spelled, rest) ← spellFrom? fuel (depth + 1) rest
    return ('[' :: spelled, rest)
| _ + 1, 0, ']' :: rest => some ([']'], rest)
| fuel + 1, depth + 1, ']' :: rest => do
    let (spelled, rest) ← spellFrom? fuel depth rest
    return (']' :: spelled, rest)
| fuel + 1, depth, c :: rest => do
    let (spelled, rest) ← spellFrom? fuel depth rest
    return (c :: spelled, rest)

/- The characters that may precede the items of a set. -/
def readLead : List Char → List Char × List Char
| '^' :: ']' :: rest => (['^', ']'], rest)
| '^' :: rest => (['^'], rest)
| ']' :: rest => ([']'], rest)
| cs => ([], cs)

/-
  The spelling of a set after its opening bracket.  A closing
  bracket that comes first is a character of the set.
-/
def spelling? (cs : List Char) : Option (List Char × List Char) := do
  let (lead, cs) := readLead cs
  let (spelled, rest) ← spellFrom? (cs.length + 1) 0 cs
  return (lead ++ spelled, rest)

------------------------------------------------------------
-- Sets by Name
------------------------------------------------------------

/- A named set after its opening bracket, as in `[:alpha:]`. -/
def readNamed? : List Char → Option (CharSet × List Char)
| ':' :: rest =>
    let (negated, rest) :=
      match rest with
      | '^' :: rest => (true, rest)
      | _ => (false, rest)
    match rest.span (· != ':') with
    | (name, ':' :: ']' :: rest) =>
        (named? (String.ofList name)).map fun s =>
          (if negated then .complement s else s, rest)
    | _ => none
| _ => none

------------------------------------------------------------
-- Bracketed Sets
------------------------------------------------------------

/-
  The operands of a set: what stands to the left of the last
  operator with that operator, and the items after it.
-/
structure Operands where
  left? : Option ((CharSet → CharSet → CharSet) × CharSet)
  items : CharSet

namespace Operands

/- The set that the operands make up. -/
def value (o : Operands) : CharSet :=
  match o.left? with
  | some (op, left) => op left o.items
  | none => o.items

/- Add an item to the right operand. -/
def add (o : Operands) (s : CharSet) : Operands :=
  { o with items := .union o.items s }

/- Apply an operator to the operands so far. -/
def apply (o : Operands) (op : CharSet → CharSet → CharSet) : Operands :=
  ⟨some (op, o.value), .none⟩

end Operands

/- A single character or an escape. -/
def readItem? : List Char → Option (Escaped × List Char)
| [] => none
| '\\' :: rest => readEscaped? rest
| c :: rest => some (.char c, rest)

/-
  An item that may be the first character of a range.  The
  last one may be any character, an opening bracket too.
-/
def readRange? (cs : List Char) : Option (CharSet × List Char) := do
  let (item, rest) ← readItem? cs
  let alone : CharSet :=
    match item with
    | .char c => .single c
    | .set s => s
  match rest with
  | '-' :: ']' :: _ | '-' :: '-' :: _ => return (alone, rest)
  | '-' :: next =>
      let (other, rest) ← readItem? next
      match item, other with
      | .char first, .char last =>
          if first ≤ last then return (.range first last, rest) else none
      | _, _ => none
  | _ => return (alone, rest)

/- The literal characters that may open a set, then the rest. -/
def readOpening (cs : List Char) : CharSet × List Char :=
  let (hyphens, rest) := cs.span (· == '-')
  if hyphens.isEmpty then
    match rest with
    | ']' :: rest => (.single ']', rest)
    | _ => (.none, rest)
  else
    (.single '-', rest)

mutual

/-
  A set after its opening bracket.  The first argument bounds
  the nesting and the number of items.
-/
def readSet? : Nat → List Char → Option (CharSet × List Char)
| 0, _ => none
| fuel + 1, cs =>
    let (negated, cs) :=
      match cs with
      | '^' :: rest => (true, rest)
      | _ => (false, cs)
    let (opening, cs) := readOpening cs
    (readItems? fuel ⟨none, opening⟩ cs).map fun (s, rest) =>
      (if negated then .complement s else s, rest)

/- The items of a set up to its closing bracket. -/
def readItems? :
    Nat → Operands → List Char → Option (CharSet × List Char)
| 0, _, _ => none
| _ + 1, _, [] => none
| _ + 1, o, ']' :: rest => some (o.value, rest)
| fuel + 1, o, '&' :: '&' :: rest => readItems? fuel (o.apply .inter) rest
| fuel + 1, o, '-' :: '-' :: rest => readItems? fuel (o.apply .diff) rest
| fuel + 1, o, '~' :: '~' :: rest =>
    readItems? fuel (o.apply .symmDiff) rest
| fuel + 1, o, '[' :: rest =>
    match readNamed? rest with
    | some (s, rest) => readItems? fuel (o.add s) rest
    | none => do
        let (s, rest) ← readSet? fuel rest
        readItems? fuel (o.add s) rest
| fuel + 1, o, cs => do
    let (s, rest) ← readRange? cs
    readItems? fuel (o.add s) rest

end

/-
  A bracketed set, after its opening bracket.  A bracket that
  ends a range opens no set, so that the set may be closed
  before its brackets balance.
-/
def read? (cs : List Char) : Option (CharSet × List Char) := do
  let (spelled, rest) ← spelling? cs
  let (s, remainder) ← readSet? (2 * spelled.length + 2) spelled
  return (s, remainder ++ rest)

end SetReader

end TreeQuery.Pattern
