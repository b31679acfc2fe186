import TreeQuery.Proofs.Collection
import TreeQuery.Proofs.Selector.CasePolicy
import TreeQuery.Proofs.Tree.Descent

/-
  Comparing attribute values with less regard to case.

  Values that are compared without regard to case match
  whenever they match with regard to it.  A selector that
  never turns matches inside of it into a mismatch keeps what
  it matched, and so a collection only grows.  Negations,
  attributes that are to differ, and indexes, which count
  matches, are the selectors that may turn them.

  Key definitions include:
    * `CasePolicy.RelaxesTo`
    * `Selector.keepsMatches`

  Main statements:
    * `Selector.accepts_relaxed`
    * `Selector.collect_grows_with_relaxed_case`
-/

namespace TreeQuery

variable {E : Engine}

------------------------------------------------------------
-- Policies
------------------------------------------------------------

namespace CasePolicy

/- The second policy is the first one, or disregards case. -/
def RelaxesTo (policy policy' : CasePolicy) : Prop :=
  policy = policy' ∨ policy' = .insensitive

/- Small letters are what is seen of whatever a policy sees. -/
theorem seen_insensitive
    (policy : CasePolicy)
    (s : String) :
    insensitive.seen s = Text.asciiLower (policy.seen s) := by
  cases policy with
  | sensitive => rfl
  | insensitive => exact (Text.asciiLower_idem s.toList).symm

variable {policy policy' : CasePolicy} {value expected : String}

/-
  What compares as asked still does so under a relaxed
  policy, unless the value is to differ.
-/
theorem holds_relaxed
    (h : policy.RelaxesTo policy')
    {c : Comparison}
    (hComparison : c ≠ .notEqual)
    (hHolds : c.holds policy value expected = true) :
    c.holds policy' value expected = true := by
  rcases h with rfl | rfl
  · exact hHolds
  · cases c with
    | equal =>
        rw [Comparison.holds, equal_iff] at hHolds ⊢
        rw [policy.seen_insensitive, policy.seen_insensitive, hHolds]
    | notEqual => exact absurd rfl hComparison
    | startsWith =>
        rw [Comparison.holds, startsWith_iff] at hHolds ⊢
        rw [policy.seen_insensitive, policy.seen_insensitive]
        exact hHolds.map Char.toLower
    | endsWith =>
        rw [Comparison.holds, endsWith_iff] at hHolds ⊢
        rw [policy.seen_insensitive, policy.seen_insensitive]
        exact hHolds.map Char.toLower
    | contains =>
        rw [Comparison.holds, contains_iff] at hHolds ⊢
        rw [policy.seen_insensitive, policy.seen_insensitive]
        exact hHolds.map Char.toLower

end CasePolicy

/- A search finds no less if more nodes have the property. -/
theorem Tree.anyElementBelow_mono
    {t : Tree}
    {n : Node}
    {p q : Node → Bool}
    (h : ∀ m, p m = true → q m = true)
    (hFound : t.anyElementBelow n p = true) :
    t.anyElementBelow n q = true := by
  rw [anyElementBelow_iff] at hFound ⊢
  rcases hFound with ⟨m, hLeads, hOther, hHolds⟩
  exact ⟨m, hLeads, hOther, h m hHolds⟩

------------------------------------------------------------
-- Selectors
------------------------------------------------------------

namespace Selector

/-
  The selector itself keeps its matches if those inside of it
  grow in number, and if values are compared without regard
  to case.
-/
def keepsMatches : Selector E → Bool
| .not _ | .index _ _ _ | .attr _ (.compare .notEqual _) => false
| _ => true

/- A test of an attribute that keeps its matches. -/
theorem holds_relaxed
    {policy policy' : CasePolicy}
    (h : policy.RelaxesTo policy')
    {name : String}
    {test : AttributeTest E}
    (hKeeps : (Selector.attr name test).keepsMatches = true)
    {value? : Option String}
    (hHolds : test.holds policy value? = true) :
    test.holds policy' value? = true := by
  cases value? with
  | none =>
      cases test with
      | compare c expected =>
          cases c with
          | notEqual => simp [keepsMatches] at hKeeps
          | _ => simp [AttributeTest.holds] at hHolds
      | present | matchesPattern => simp [AttributeTest.holds] at hHolds
  | some value =>
      cases test with
      | compare c expected =>
          have hComparison : c ≠ .notEqual := by
            rintro rfl
            simp [keepsMatches] at hKeeps
          simp only [AttributeTest.holds] at hHolds ⊢
          exact CasePolicy.holds_relaxed h hComparison hHolds
      | present | matchesPattern => exact hHolds

mutual

/-
  What a selector matches it also matches under a relaxed
  case policy, if every selector in it keeps its matches.
-/
theorem accepts_relaxed
    (s : Selector E)
    (hKeeps : s.everywhere keepsMatches = true)
    {options options' : Options}
    (h : options.valueCase.RelaxesTo options'.valueCase)
    {t : Tree}
    {scope n : Node}
    (hAccepts : s.accepts ⟨t, scope, options⟩ n = true) :
    s.accepts ⟨t, scope, options'⟩ n = true := by
  cases s with
  | universal | tag | id | className | attrStarting | position
  | onlyChild | onlyOfType | empty | containsText | matchesText | root
  | scope =>
      exact hAccepts
  | attr name test =>
      simp only [everywhere] at hKeeps
      simp only [accepts, Bool.and_eq_true] at hAccepts ⊢
      exact hAccepts.imp_right (holds_relaxed h hKeeps)
  | index | not => simp [everywhere, keepsMatches] at hKeeps
  | compound parts =>
      simp only [everywhere, keepsMatches, Bool.true_and] at hKeeps
      simp only [accepts, Bool.and_eq_true] at hAccepts ⊢
      exact hAccepts.imp_right (acceptsAll_relaxed parts hKeeps h)
  | group branches =>
      simp only [everywhere, keepsMatches, Bool.true_and] at hKeeps
      simp only [accepts, Bool.and_eq_true] at hAccepts ⊢
      exact hAccepts.imp_right (acceptsAny_relaxed branches hKeeps h)
  | is inner =>
      simp only [everywhere, keepsMatches, Bool.true_and] at hKeeps
      simp only [accepts, Bool.and_eq_true] at hAccepts ⊢
      exact hAccepts.imp_right (accepts_relaxed inner hKeeps h)
  | has inner =>
      simp only [everywhere, keepsMatches, Bool.true_and] at hKeeps
      simp only [accepts, Bool.and_eq_true] at hAccepts ⊢
      exact hAccepts.imp_right (Tree.anyElementBelow_mono
        fun m => accepts_relaxed inner hKeeps h)
  | combine c left right =>
      simp only [everywhere, keepsMatches, Bool.true_and,
        Bool.and_eq_true] at hKeeps
      simp only [accepts, Bool.and_eq_true, List.any_eq_true]
        at hAccepts ⊢
      rcases hAccepts with ⟨⟨hNode, hRight⟩, m, hOrigin, hLeft⟩
      rw [c.origins_congr t scope options options'] at hOrigin
      exact ⟨⟨hNode, accepts_relaxed right hKeeps.2 h hRight⟩, m, hOrigin,
        accepts_relaxed left hKeeps.1 h hLeft⟩

/- So do all parts of a compound. -/
theorem acceptsAll_relaxed
    (parts : List (Selector E))
    (hKeeps : allEverywhere keepsMatches parts = true)
    {options options' : Options}
    (h : options.valueCase.RelaxesTo options'.valueCase)
    {t : Tree}
    {scope n : Node}
    (hAccepts : acceptsAll parts ⟨t, scope, options⟩ n = true) :
    acceptsAll parts ⟨t, scope, options'⟩ n = true := by
  cases parts with
  | nil => rfl
  | cons part parts =>
      rw [allEverywhere, Bool.and_eq_true] at hKeeps
      rw [acceptsAll, Bool.and_eq_true] at hAccepts ⊢
      exact ⟨accepts_relaxed part hKeeps.1 h hAccepts.1,
        acceptsAll_relaxed parts hKeeps.2 h hAccepts.2⟩

/- So does any branch of a group. -/
theorem acceptsAny_relaxed
    (branches : List (Selector E))
    (hKeeps : allEverywhere keepsMatches branches = true)
    {options options' : Options}
    (h : options.valueCase.RelaxesTo options'.valueCase)
    {t : Tree}
    {scope n : Node}
    (hAccepts : acceptsAny branches ⟨t, scope, options⟩ n = true) :
    acceptsAny branches ⟨t, scope, options'⟩ n = true := by
  cases branches with
  | nil => exact hAccepts
  | cons branch branches =>
      rw [allEverywhere, Bool.and_eq_true] at hKeeps
      rw [acceptsAny, Bool.or_eq_true] at hAccepts ⊢
      exact hAccepts.imp (accepts_relaxed branch hKeeps.1 h)
        (acceptsAny_relaxed branches hKeeps.2 h)

end

------------------------------------------------------------
-- Collections
------------------------------------------------------------

/-
  A collection that disregards the case of attribute values
  has everything, in the same order, that the collection with
  regard to case has, if no selector is negated in it, no
  attribute is to differ and no matches are counted.  If no
  attribute value is compared in it, the two are the same.
-/
theorem collect_grows_with_relaxed_case
    (s : Selector E)
    (t : Tree)
    (includeRoot : Bool)
    (root : Node) :
    (s.everywhere keepsMatches = true →
        (s.collect t ⟨.sensitive, includeRoot⟩ root).Sublist
          (s.collect t ⟨.insensitive, includeRoot⟩ root)) ∧
      (s.everywhere comparesNoValue = true →
        s.collect t ⟨.sensitive, includeRoot⟩ root =
          s.collect t ⟨.insensitive, includeRoot⟩ root) := by
  constructor
  · intro hKeeps
    have hSelects :
        ∀ n, s.selects t ⟨.sensitive, includeRoot⟩ root n = true →
          s.selects t ⟨.insensitive, includeRoot⟩ root n = true := by
      intro n hSelected
      rw [selects_iff] at hSelected ⊢
      have hRelaxed : CasePolicy.sensitive.RelaxesTo .insensitive :=
        .inr rfl
      exact ⟨hSelected.1, accepts_relaxed s hKeeps hRelaxed hSelected.2.1,
        hSelected.2.2⟩
    rw [collect_eq_filter, collect_eq_filter]
    exact List.monotone_filter_right _ hSelects
  · intro hNone
    have hSame :
        s.accepts ⟨t, root, ⟨.sensitive, includeRoot⟩⟩ =
          s.accepts ⟨t, root, ⟨.insensitive, includeRoot⟩⟩ :=
      s.accepts_congr_case t root (.inr hNone)
    have hSelects :
        s.selects t ⟨.sensitive, includeRoot⟩ root =
          s.selects t ⟨.insensitive, includeRoot⟩ root := by
      funext n
      rw [selects, selects, hSame]
      rfl
    rw [collect_eq_filter, collect_eq_filter, hSelects]

/- Two attributes that differ in case, in front of a third element. -/
def capitalTree : Tree :=
  .element (.unqualified "r") []
    [.element (.unqualified "a") [⟨.unqualified "x", "K"⟩] [],
     .element (.unqualified "b") [⟨.unqualified "x", "k"⟩] [],
     .element (.unqualified "c") [] []]

/- The elements behind one with the value `k`. -/
def behindSmallK : Selector .standard :=
  .combine .sibling (.is (.attr "x" (.compare .equal "k"))) .universal

/-
  With regard to case there is one element behind the small
  letter, without there is another one behind the capital.
  For a test of the attribute's presence they do not differ.
-/
theorem collect_grows_with_relaxed_case_siblings :
    behindSmallK.everywhere keepsMatches = true ∧
      behindSmallK.collect capitalTree ⟨.sensitive, true⟩ .root =
        [.path [2]] ∧
      [Node.path [2]].Sublist
        (behindSmallK.collect capitalTree ⟨.insensitive, true⟩ .root) ∧
      behindSmallK.collect capitalTree ⟨.insensitive, true⟩ .root =
        [.path [1], .path [2]] ∧
      (.has (.attr "x" .present) : Selector .standard).everywhere
          comparesNoValue =
        true ∧
      (.has (.attr "x" .present) : Selector .standard).collect capitalTree
          ⟨.insensitive, true⟩ .root =
        [.root] := by
  have hKeeps : behindSmallK.everywhere keepsMatches = true := by decide
  have hNone :
      (.has (.attr "x" .present) : Selector .standard).everywhere
        comparesNoValue = true := by
    decide
  have hSensitive :
      behindSmallK.collect capitalTree ⟨.sensitive, true⟩ .root =
        [.path [2]] := by
    rw [collect_eq_filter]
    with_unfolding_all rfl
  have hInsensitive :
      behindSmallK.collect capitalTree ⟨.insensitive, true⟩ .root =
        [.path [1], .path [2]] := by
    rw [collect_eq_filter]
    with_unfolding_all rfl
  have hPresent :
      (.has (.attr "x" .present) : Selector .standard).collect capitalTree
          ⟨.sensitive, true⟩ .root =
        [.root] := by
    rw [collect_eq_filter]
    with_unfolding_all rfl
  have hGrows :=
    (collect_grows_with_relaxed_case behindSmallK capitalTree true .root).1
      hKeeps
  have hSame :=
    (collect_grows_with_relaxed_case
      (.has (.attr "x" .present) : Selector .standard) capitalTree true
      .root).2 hNone
  refine ⟨hKeeps, hSensitive, ?_, hInsensitive, hNone, ?_⟩
  · rwa [hSensitive] at hGrows
  · rw [← hSame, hPresent]

end Selector

end TreeQuery
