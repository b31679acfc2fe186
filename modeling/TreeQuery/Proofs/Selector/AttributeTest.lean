import TreeQuery.Pattern.Standard
import TreeQuery.Reading.Group
import TreeQuery.Selector.Matching

/-
  Tests of attribute values, and their complements.

  A test of a value asks for the attribute first.  The test
  of difference alone can hold where the attribute is missing,
  but not if the text that it is given is empty.  So it is the
  complement of the test of equality everywhere else, under
  both case policies.

  Main statements:
    * `AttributeTest.holds_notEqual_eq_not_iff`
    * `Selector.difference_complements_equality_iff`
-/

namespace TreeQuery

variable {E : Engine}

------------------------------------------------------------
-- Values
------------------------------------------------------------

namespace AttributeTest

variable (policy : CasePolicy) (value? : Option String) (expected : String)

/- A value is equal to a text only where there is one. -/
theorem holds_equal_iff :
    (compare .equal expected : AttributeTest E).holds policy value? = true ↔
      ∃ value, value? = some value ∧ policy.equal value expected = true := by
  cases value? with
  | none => simp [holds]
  | some value => simp [holds, Comparison.holds]

/- A value that is missing differs from the texts that are not empty. -/
theorem holds_notEqual_iff :
    (compare .notEqual expected : AttributeTest E).holds policy value? =
        true ↔
      (value? = none ∧ expected ≠ "") ∨
        ∃ value, value? = some value ∧
          policy.equal value expected = false := by
  cases value? with
  | none => simp [holds]
  | some value => simp [holds, Comparison.holds]

/-
  Difference is the complement of equality unless a missing
  value is compared with the empty text; then neither holds.
-/
theorem holds_notEqual_eq_not_iff :
    (compare .notEqual expected : AttributeTest E).holds policy value? =
        !(compare .equal expected : AttributeTest E).holds policy value? ↔
      value?.isSome = true ∨ expected ≠ "" := by
  cases value? with
  | none => simp [holds]
  | some value => simp [holds, Comparison.holds]

end AttributeTest

------------------------------------------------------------
-- Elements
------------------------------------------------------------

namespace Selector

/- On an element an attribute test is a test of the value. -/
theorem accepts_attr
    {ctx : Context}
    {n : Node}
    (hElement : ctx.tree.isElement n = true)
    (name : String)
    (test : AttributeTest E) :
    (Selector.attr name test).accepts ctx n =
      test.holds ctx.options.valueCase
        (ctx.tree.attributeValue? n name) := by
  rw [accepts, hElement, Bool.true_and]

/-
  An element differs from a text in an attribute exactly if it
  is not equal to it, unless the attribute is missing and the
  text is empty.  It differs if the attribute is missing and
  the text is not empty, or if the attribute has another value
  under the case policy.
-/
theorem difference_complements_equality_iff
    (E : Engine)
    {ctx : Context}
    {n : Node}
    (hElement : ctx.tree.isElement n = true)
    (name expected : String) :
    ((.attr name (.compare .notEqual expected) : Selector E).accepts ctx n =
          !(.attr name (.compare .equal expected) : Selector E).accepts
            ctx n ↔
        ctx.tree.hasAttribute n name = true ∨ expected ≠ "") ∧
      ((.attr name (.compare .notEqual expected) : Selector E).accepts ctx n =
            true ↔
        (ctx.tree.attributeValue? n name = none ∧ expected ≠ "") ∨
          ∃ value, ctx.tree.attributeValue? n name = some value ∧
            ctx.options.valueCase.equal value expected = false) ∧
      ((.attr name (.compare .equal expected) : Selector E).accepts ctx n =
            true ↔
        ∃ value, ctx.tree.attributeValue? n name = some value ∧
          ctx.options.valueCase.equal value expected = true) := by
  simp only [accepts_attr hElement]
  refine ⟨?_, ?_, ?_⟩
  · exact AttributeTest.holds_notEqual_eq_not_iff _ _ expected
  · exact AttributeTest.holds_notEqual_iff _ _ expected
  · exact AttributeTest.holds_equal_iff _ _ expected

/- An element with two attributes of one name, in different case. -/
def twiceNamed : Tree :=
  .element (.unqualified "r")
    [⟨.unqualified "A", "x"⟩, ⟨.unqualified "a", ""⟩] []

/-
  The value of the first attribute counts, up to case where
  this is asked for.
-/
theorem difference_complements_equality_iff_first_value :
    twiceNamed.isElement .root = true ∧
      (.attr "a" (.compare .equal "X") : Selector .standard).accepts
          ⟨twiceNamed, .root, { valueCase := .insensitive }⟩ .root = true ∧
        (.attr "a" (.compare .notEqual "X") : Selector .standard).accepts
            ⟨twiceNamed, .root, { valueCase := .insensitive }⟩ .root =
          false ∧
          (.attr "a" (.compare .notEqual "") : Selector .standard).accepts
              ⟨twiceNamed, .root, { valueCase := .insensitive }⟩ .root =
            true := by
  have hElement :
      (Context.mk twiceNamed .root
        { valueCase := .insensitive }).tree.isElement .root = true := by
    decide
  have hValue : twiceNamed.attributeValue? .root "a" = some "x" := by
    decide
  have hNamed : twiceNamed.hasAttribute .root "a" = true := by decide
  rcases difference_complements_equality_iff .standard hElement "a" "X" with
    ⟨hComplement, _, hEqual⟩
  have hSame := hEqual.2 ⟨"x", hValue, by decide⟩
  refine ⟨hElement, hSame, ?_, ?_⟩
  · rw [hComplement.2 (.inl hNamed), hSame]
    rfl
  · rcases difference_complements_equality_iff .standard hElement "a" "" with
      ⟨_, hDiffers, _⟩
    exact hDiffers.2 (.inr ⟨"x", hValue, by decide⟩)

/-
  An element without the attribute is neither equal to the
  empty text in it nor different from it.
-/
theorem difference_misses_missing_attribute :
    read .standard "[a!='']" = .ok (.attr "a" (.compare .notEqual "")) ∧
      (Tree.element (.unqualified "r") [] []).isElement .root = true ∧
        (Tree.element (.unqualified "r") [] []).hasAttribute .root "a" =
            false ∧
          (.attr "a" (.compare .notEqual "") : Selector .standard).accepts
              ⟨.element (.unqualified "r") [] [], .root, {}⟩ .root =
            false ∧
            (.attr "a" (.compare .equal "") : Selector .standard).accepts
                ⟨.element (.unqualified "r") [] [], .root, {}⟩ .root =
              false := by
  refine ⟨?_, by decide, by decide, by decide, by decide⟩
  with_unfolding_all rfl

end Selector

end TreeQuery
