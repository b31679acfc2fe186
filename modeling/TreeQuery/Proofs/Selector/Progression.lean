import Mathlib.Algebra.Order.Ring.Abs
import Mathlib.Algebra.Order.Ring.Int
import Mathlib.Tactic.Ring
import TreeQuery.Selector.Formula

/-
  The positions of a formula, as an arithmetic progression
  and as the test with 64-bit integers finds them.

  A position is reached by a formula if it is the offset and
  some number of steps.  That is so exactly if the step
  divides the distance from the offset and does not point the
  other way.  The test asks the same of the distance and of
  its product with the step, unless one of them overflows.
  So each answer that it gives is right, and it fails exactly
  at the overflows, which begin behind position `2 ^ 31`.

  Key definitions include:
    * `Formula.Reaches`
    * `Formula.distance`
    * `Formula.Overflows`

  Main statements:
    * `Formula.reaches_iff`
    * `Formula.holdsAt_eq_error_iff`
    * `Formula.holdsAt_eq_ok_iff`
    * `Formula.not_overflows_of_le`
    * `Formula.answers_are_right_unless_overflowing`
-/

namespace TreeQuery.Formula

variable {f : Formula} {position : Nat}

/- The position is the offset and some number of steps. -/
def Reaches (f : Formula) (position : Nat) : Prop :=
  ∃ n : Nat, (position : Int) = f.step.toInt * n + f.offset.toInt

/- How far a position is from the offset. -/
def distance (f : Formula) (position : Nat) : Int :=
  position - f.offset.toInt

/-
  The number is the first one of the test that does not fit
  64 bits.  The test needs no numbers for a position that does
  not fit itself, and none without steps.
-/
def Overflows (f : Formula) (position : Nat) : Overflow → Prop
| .distance =>
    position < 2 ^ 63 ∧ f.step.toInt ≠ 0 ∧ ¬ FitsWord (f.distance position)
| .product =>
    position < 2 ^ 63 ∧ f.step.toInt ≠ 0 ∧
      FitsWord (f.distance position) ∧
        ¬ FitsWord (f.distance position * f.step.toInt)

------------------------------------------------------------
-- Progressions
------------------------------------------------------------

/-
  A position is reached exactly if the step divides the
  distance and the number of steps is not negative.
-/
theorem reaches_iff :
    f.Reaches position ↔
      f.step.toInt ∣ f.distance position ∧
        0 ≤ f.distance position * f.step.toInt := by
  constructor
  · rintro ⟨n, hPosition⟩
    have hDistance : f.distance position = f.step.toInt * n := by
      rw [distance, hPosition]
      omega
    refine ⟨⟨n, hDistance⟩, ?_⟩
    have hProduct :
        f.distance position * f.step.toInt =
          f.step.toInt * f.step.toInt * n := by
      rw [hDistance]
      ring
    rw [hProduct]
    exact mul_nonneg (mul_self_nonneg _) (Int.natCast_nonneg n)
  · rintro ⟨⟨k, hDistance⟩, hSign⟩
    by_cases hStep : f.step.toInt = 0
    · refine ⟨0, ?_⟩
      rw [distance, hStep] at hDistance
      rw [hStep]
      omega
    · have hSquare : 0 < f.step.toInt * f.step.toInt :=
        mul_self_pos.2 hStep
      have hSteps : 0 ≤ k := by
        rw [hDistance, mul_right_comm] at hSign
        exact nonneg_of_mul_nonneg_right hSign hSquare
      refine ⟨k.toNat, ?_⟩
      rw [Int.toNat_of_nonneg hSteps, ← hDistance, distance]
      omega

/- Without steps only the offset is reached. -/
theorem reaches_iff_of_step_eq_zero (hStep : f.step.toInt = 0) :
    f.Reaches position ↔ (position : Int) = f.offset.toInt := by
  rw [reaches_iff, hStep, Int.zero_dvd, distance, mul_zero]
  omega

------------------------------------------------------------
-- Overflows
------------------------------------------------------------

theorem fitsWord_natCast_iff :
    FitsWord (position : Int) ↔ position < 2 ^ 63 := by
  rw [FitsWord]
  omega

theorem not_overflows_of_not_lt
    (hFar : ¬ position < 2 ^ 63)
    (number : Overflow) :
    ¬ f.Overflows position number := by
  intro hOverflows
  cases number with
  | distance => exact hFar hOverflows.1
  | product => exact hFar hOverflows.1

theorem not_overflows_of_step_eq_zero
    (hStep : f.step.toInt = 0)
    (number : Overflow) :
    ¬ f.Overflows position number := by
  intro hOverflows
  cases number with
  | distance => exact hOverflows.2.1 hStep
  | product => exact hOverflows.2.1 hStep

/- Two 32-bit integers and a near position stay in 64 bits. -/
theorem not_overflows_of_le
    (hNear : position ≤ 2 ^ 31)
    (number : Overflow) :
    ¬ f.Overflows position number := by
  have hStepLower := f.step.le_toInt
  have hStepUpper := f.step.toInt_lt
  have hOffsetLower := f.offset.le_toInt
  have hOffsetUpper := f.offset.toInt_lt
  have hLower : -2 ^ 31 ≤ f.distance position := by
    rw [distance]
    omega
  have hUpper : f.distance position ≤ 2 ^ 32 := by
    rw [distance]
    omega
  have hProduct : FitsWord (f.distance position * f.step.toInt) := by
    rcases le_total 0 f.step.toInt with hSign | hSign
    · have hLeast := mul_le_mul_of_nonneg_right hLower hSign
      have hMost := mul_le_mul_of_nonneg_right hUpper hSign
      exact ⟨by omega, by omega⟩
    · have hLeast := mul_le_mul_of_nonpos_right hUpper hSign
      have hMost := mul_le_mul_of_nonpos_right hLower hSign
      exact ⟨by omega, by omega⟩
  cases number with
  | distance => exact fun hOverflows => hOverflows.2.2 ⟨by omega, by omega⟩
  | product => exact fun hOverflows => hOverflows.2.2.2 hProduct

/- No two numbers are the first that does not fit. -/
theorem Overflows.unique
    {first second : Overflow}
    (hFirst : f.Overflows position first)
    (hSecond : f.Overflows position second) :
    first = second := by
  cases first with
  | distance =>
      cases second with
      | distance => rfl
      | product => exact absurd hSecond.2.2.1 hFirst.2.2
  | product =>
      cases second with
      | distance => exact absurd hFirst.2.2.1 hSecond.2.2
      | product => rfl

------------------------------------------------------------
-- Outcomes of the Test
------------------------------------------------------------

theorem checked_eq_ok {number : Overflow} {n : Int} (h : FitsWord n) :
    checked number n = .ok n :=
  if_pos h

theorem checked_eq_error {number : Overflow} {n : Int} (h : ¬ FitsWord n) :
    checked number n = .error number :=
  if_neg h

theorem holdsAt_of_not_lt (hFar : ¬ position < 2 ^ 63) :
    f.holdsAt position = .ok false :=
  if_neg (mt fitsWord_natCast_iff.1 hFar)

theorem holdsAt_of_step_eq_zero
    (hNear : position < 2 ^ 63)
    (hStep : f.step.toInt = 0) :
    f.holdsAt position =
      .ok (decide ((position : Int) = f.offset.toInt)) := by
  rw [holdsAt, if_pos (fitsWord_natCast_iff.2 hNear)]
  exact if_pos hStep

/- With steps the test computes the numbers one after the other. -/
theorem holdsAt_of_step_ne_zero
    (hNear : position < 2 ^ 63)
    (hStep : f.step.toInt ≠ 0) :
    f.holdsAt position =
      (checked .distance (f.distance position)).bind fun d =>
        (checked .product (d * f.step.toInt)).bind fun product =>
          .ok (decide (0 ≤ product) && decide (d.tmod f.step.toInt = 0)) := by
  rw [holdsAt, if_pos (fitsWord_natCast_iff.2 hNear)]
  exact if_neg hStep

/-
  Either the test fails at an overflow, or there is none and
  it tells whether the position is reached.
-/
theorem holdsAt_cases (f : Formula) (position : Nat) :
    (∃ number,
        f.holdsAt position = .error number ∧
          f.Overflows position number) ∨
      (∃ answer,
        f.holdsAt position = .ok answer ∧
          (∀ number, ¬ f.Overflows position number) ∧
            (answer = true ↔ position < 2 ^ 63 ∧ f.Reaches position)) := by
  by_cases hNear : position < 2 ^ 63
  case neg =>
    right
    refine ⟨false, holdsAt_of_not_lt hNear,
      not_overflows_of_not_lt hNear, ?_⟩
    simp only [hNear, false_and, Bool.false_eq_true]
  by_cases hStep : f.step.toInt = 0
  case pos =>
    right
    refine ⟨_, holdsAt_of_step_eq_zero hNear hStep,
      not_overflows_of_step_eq_zero hStep, ?_⟩
    rw [decide_eq_true_iff, reaches_iff_of_step_eq_zero hStep,
      and_iff_right hNear]
  rw [holdsAt_of_step_ne_zero hNear hStep]
  by_cases hDistance : FitsWord (f.distance position)
  case neg =>
    left
    rw [checked_eq_error hDistance]
    exact ⟨.distance, rfl, hNear, hStep, hDistance⟩
  rw [checked_eq_ok hDistance, Except.bind]
  by_cases hProduct : FitsWord (f.distance position * f.step.toInt)
  case neg =>
    left
    rw [checked_eq_error hProduct]
    exact ⟨.product, rfl, hNear, hStep, hDistance, hProduct⟩
  right
  rw [checked_eq_ok hProduct]
  refine ⟨_, rfl, ?_, ?_⟩
  · rintro (_ | _) hOverflows
    · exact hOverflows.2.2 hDistance
    · exact hOverflows.2.2.2 hProduct
  · rw [Bool.and_eq_true, decide_eq_true_iff, decide_eq_true_iff,
      ← Int.dvd_iff_tmod_eq_zero, reaches_iff, and_iff_right hNear,
      and_comm]

/- The test fails exactly at the overflows. -/
theorem holdsAt_eq_error_iff {number : Overflow} :
    f.holdsAt position = .error number ↔ f.Overflows position number := by
  rcases f.holdsAt_cases position with
    ⟨other, hFails, hOverflows⟩ | ⟨answer, hAnswers, hNone, _⟩
  · rw [hFails, Except.error.injEq]
    constructor
    · rintro rfl
      exact hOverflows
    · exact hOverflows.unique
  · simp [hAnswers, hNone]

/- Elsewhere it answers whether the position is reached. -/
theorem holdsAt_eq_ok_iff {answer : Bool} :
    f.holdsAt position = .ok answer ↔
      (∀ number, ¬ f.Overflows position number) ∧
        (answer = true ↔ position < 2 ^ 63 ∧ f.Reaches position) := by
  rcases f.holdsAt_cases position with
    ⟨number, hFails, hOverflows⟩ | ⟨given, hAnswers, hNone, hRight⟩
  · rw [hFails]
    simp only [reduceCtorEq, false_iff]
    rintro ⟨hNone, _⟩
    exact hNone number hOverflows
  · rw [hAnswers, Except.ok.injEq, ← hRight, Bool.eq_iff_iff,
      and_iff_right hNone]
    exact iff_comm

------------------------------------------------------------
-- Acceptance
------------------------------------------------------------

/- What is accepted is reached, without an overflow. -/
theorem accepts_iff :
    f.accepts position = true ↔
      position < 2 ^ 63 ∧ f.Reaches position ∧
        ∀ number, ¬ f.Overflows position number := by
  have hAnswer :
      f.accepts position = true ↔ f.holdsAt position = .ok true := by
    rw [accepts]
    cases f.holdsAt position with
    | ok answer => simp
    | error number => simp
  rw [hAnswer, holdsAt_eq_ok_iff]
  tauto

/- Near positions are accepted exactly if they are reached. -/
theorem accepts_iff_reaches (hNear : position ≤ 2 ^ 31) :
    f.accepts position = true ↔ f.Reaches position := by
  rw [accepts_iff, and_iff_right (by omega),
    and_iff_left (not_overflows_of_le hNear)]

/- The formula of the first position accepts no other. -/
theorem accepts_first_iff : first.accepts position = true ↔ position = 1 := by
  have hStep : first.step.toInt = 0 := rfl
  have hOffset : first.offset.toInt = 1 := rfl
  have hNone (number : Overflow) : ¬ first.Overflows position number :=
    not_overflows_of_step_eq_zero hStep number
  rw [accepts_iff, reaches_iff_of_step_eq_zero hStep, hOffset]
  constructor
  · rintro ⟨_, hPosition, _⟩
    omega
  · rintro rfl
    exact ⟨by decide, rfl, hNone⟩

------------------------------------------------------------
-- Agreement
------------------------------------------------------------

/-
  At every position the test either fails, because a number
  that it computes overflows, or answers rightly whether the
  position fits 64 bits and is reached.  No number overflows
  up to position `2 ^ 31`.
-/
theorem answers_are_right_unless_overflowing
    (f : Formula)
    (position : Nat) :
    (f.holdsAt position = .ok true ↔
        (∀ number, ¬ f.Overflows position number) ∧
          position < 2 ^ 63 ∧ f.Reaches position) ∧
      (f.holdsAt position = .ok false ↔
        (∀ number, ¬ f.Overflows position number) ∧
          ¬ (position < 2 ^ 63 ∧ f.Reaches position)) ∧
      (∀ number,
        f.holdsAt position = .error number ↔
          f.Overflows position number) ∧
      (position ≤ 2 ^ 31 →
        ∀ number, ¬ f.Overflows position number) := by
  refine ⟨?_, ?_, fun number => holdsAt_eq_error_iff, not_overflows_of_le⟩
  · rw [holdsAt_eq_ok_iff, iff_true_left rfl]
  · rw [holdsAt_eq_ok_iff, iff_false_left Bool.false_ne_true]

/-
  The longest step from the least offset reaches a position
  close to `2 ^ 31`, with a product that just fits.
-/
theorem answers_are_right_unless_overflowing_least_offset :
    (2147483646 : Nat) ≤ 2 ^ 31 ∧
      (⟨2147483647, -2147483648⟩ : Formula).holdsAt 2147483646 =
        .ok true := by
  rcases answers_are_right_unless_overflowing
    ⟨2147483647, -2147483648⟩ 2147483646 with ⟨hTrue, _, _, hNear⟩
  have hReached :
      (⟨2147483647, -2147483648⟩ : Formula).Reaches 2147483646 :=
    ⟨2, by decide⟩
  exact ⟨by decide,
    hTrue.2 ⟨hNear (by decide), by decide, hReached⟩⟩

/-
  Steps of two reach a far position, at which their product
  with the distance overflows.  So the test does not answer
  that the position is reached.
-/
theorem reached_position_overflows :
    (⟨2, 0⟩ : Formula).Reaches (2 ^ 62) ∧
      (⟨2, 0⟩ : Formula).holdsAt (2 ^ 62) = .error .product ∧
      ¬ ∀ (f : Formula) (position : Nat),
        f.holdsAt position = .ok true ↔
          position < 2 ^ 63 ∧ f.Reaches position := by
  have hReached : (⟨2, 0⟩ : Formula).Reaches (2 ^ 62) :=
    ⟨2 ^ 61, by decide⟩
  have hFails :
      (⟨2, 0⟩ : Formula).holdsAt (2 ^ 62) = .error .product := by
    decide
  refine ⟨hReached, hFails, fun hAll => ?_⟩
  have hHolds := (hAll ⟨2, 0⟩ (2 ^ 62)).2 ⟨by decide, hReached⟩
  rw [hFails] at hHolds
  cases hHolds

end TreeQuery.Formula
