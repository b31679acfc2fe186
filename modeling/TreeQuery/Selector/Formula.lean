import TreeQuery.Text.Ascii
import TreeQuery.Text.Blank
import TreeQuery.Text.Decimal

/-
  Formulas `an+b` for the positions of siblings.

  A position, counted from one, satisfies a formula if it is
  `a * n + b` for some `n ≥ 0`.  The coefficients are 32-bit
  integers.  The test computes with 64-bit integers, and fails
  where one of its numbers does not fit them.

  Key definitions include:
    * `Formula`
    * `Formula.parse?`
    * `Formula.Overflow`
    * `Formula.holdsAt`
    * `Formula.accepts`
    * `Formula.text`
-/

namespace TreeQuery

/- The formula with coefficients `step` and `offset`. -/
structure Formula where
  step : Int32
  offset : Int32
deriving DecidableEq, Repr

namespace Formula

/- The formula that only the first position satisfies. -/
def first : Formula :=
  ⟨0, 1⟩

------------------------------------------------------------
-- Reading
------------------------------------------------------------

/- An integer that fits 32 bits. -/
def fit? (n : Int) : Option Int32 :=
  if -2147483648 ≤ n ∧ n ≤ 2147483647 then some (Int32.ofInt n)
  else none

/- An optional sign and digits, one at least. -/
def readSigned? : List Char → Option Int32
| '+' :: digits => (Text.readDigits? digits).bind fun n => fit? n
| '-' :: digits => (Text.readDigits? digits).bind fun n => fit? (-n)
| digits => (Text.readDigits? digits).bind fun n => fit? n

/- The coefficient before the letter `n`. -/
def readStep? : List Char → Option Int32
| [] | ['+'] => some 1
| ['-'] => some (-1)
| cs => readSigned? cs

/- The number after the letter `n`, which has to have a sign. -/
def readOffset? : List Char → Option Int32
| [] => some 0
| c :: cs => if c = '+' ∨ c = '-' then readSigned? (c :: cs) else none

/- A formula without blanks, in small letters. -/
def readCompact? (cs : List Char) : Option Formula :=
  if cs = "odd".toList then some ⟨2, 1⟩
  else if cs = "even".toList then some ⟨2, 0⟩
  else
    match cs.span (· != 'n') with
    | (before, _ :: after) => do
        return ⟨← readStep? before, ← readOffset? after⟩
    | (digits, []) => do
        return ⟨0, ← readSigned? digits⟩

/-
  The formula that a text writes: `odd`, `even`, an integer,
  or `an+b`.  Blanks and the case of letters do not matter.
-/
def parse? (s : String) : Option Formula :=
  readCompact?
    (Text.asciiLower (s.toList.filter fun c => !Text.isBlank c))

------------------------------------------------------------
-- Positions
------------------------------------------------------------

/- The numbers that the test of a position computes. -/
inductive Overflow where
| distance
| product
deriving DecidableEq, Repr

/- An integer fits 64 bits. -/
def FitsWord (n : Int) : Prop :=
  -9223372036854775808 ≤ n ∧ n ≤ 9223372036854775807

instance (n : Int) : Decidable (FitsWord n) :=
  inferInstanceAs (Decidable (_ ∧ _))

/- A number of the test, which fails if it does not fit. -/
def checked (number : Overflow) (n : Int) : Except Overflow Int :=
  if FitsWord n then .ok n else .error number

/-
  Whether a position satisfies the formula.  Positions that
  do not fit 64 bits satisfy none.  For the others the test
  fails if the distance from the offset, or its product with
  the step, does not fit; without steps it needs neither.
-/
def holdsAt (f : Formula) (position : Nat) : Except Overflow Bool :=
  if FitsWord position then
    let a := f.step.toInt
    let b := f.offset.toInt
    if a = 0 then .ok (decide (position = b))
    else do
      let distance ← checked .distance (position - b)
      let product ← checked .product (distance * a)
      return decide (0 ≤ product) && decide (distance.tmod a = 0)
  else
    .ok false

/-
  The test answers that a position satisfies the formula.  It
  cannot fail before position `2 ^ 31`.
-/
def accepts (f : Formula) (position : Nat) : Bool :=
  match f.holdsAt position with
  | .ok answer => answer
  | .error _ => false

------------------------------------------------------------
-- Writing
------------------------------------------------------------

/- A 32-bit integer in decimal digits. -/
def integerText (n : Int32) : String :=
  toString n.toInt

/- The part of a formula with the letter `n`. -/
def stepText (step : Int32) : String :=
  if step = 1 then "n"
  else if step = -1 then "-n"
  else integerText step ++ "n"

/- The number after the letter `n`, with its sign. -/
def offsetText (offset : Int32) : String :=
  if offset = 0 then ""
  else if 0 < offset then "+" ++ integerText offset
  else integerText offset

/- The shortest text of a formula. -/
def text (f : Formula) : String :=
  if f.step = 0 then integerText f.offset
  else stepText f.step ++ offsetText f.offset

end Formula

end TreeQuery
