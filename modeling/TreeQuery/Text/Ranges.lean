/-
  Character properties given by tables of code points.

  A set of characters is a list of ascending ranges.  A map
  on characters is a list of shifts: a run of code points
  with a common step, each moved by the same distance.

  Key definitions include:
    * `inRanges`
    * `Shift`
    * `shiftOf?`
    * `shifted`
-/

namespace TreeQuery.Text

------------------------------------------------------------
-- Ranges
------------------------------------------------------------

/- Membership in a list of ascending ranges. -/
def inRanges : List (Nat × Nat) → Nat → Bool
| [], _ => false
| (first, last) :: rest, n =>
    if n < first then false
    else decide (n ≤ last) || inRanges rest n

------------------------------------------------------------
-- Shifts
------------------------------------------------------------

/-
  The code points `first`, `first + step`, … up to `last`,
  each of which moves by `distance`.
-/
structure Shift where
  first : Nat
  last : Nat
  step : Nat
  distance : Int

namespace Shift

/- The code point is one of those that the shift moves. -/
def moves (s : Shift) (n : Nat) : Bool :=
  s.first ≤ n && n ≤ s.last && (n - s.first) % s.step == 0

/- Where the shift takes a code point. -/
def apply (s : Shift) (n : Nat) : Nat :=
  (Int.ofNat n + s.distance).toNat

/- The code point from which the shift leads to `n`. -/
def source? (s : Shift) (n : Nat) : Option Nat :=
  let m := (Int.ofNat n - s.distance).toNat
  if s.moves m && s.apply m == n then some m else none

end Shift

/- The first shift that moves the code point. -/
def shiftOf? (shifts : List Shift) (n : Nat) : Option Shift :=
  shifts.find? (·.moves n)

/- A character after the first shift that moves it, if any. -/
def shifted (shifts : List Shift) (c : Char) : Char :=
  match shiftOf? shifts c.toNat with
  | some s => Char.ofNat (s.apply c.toNat)
  | none => c

end TreeQuery.Text
