import TreeQuery.Selector.Matching

/-
  What a selector reads of its context.

  Of the options only the case policy matters to a selector,
  and only where an attribute value is compared; whether the
  root may be returned is for the collection to decide.  The
  scope matters only to some kinds of selectors, and not to
  what is asked of the descendants of a node, for which the
  node is the scope.

  Key definitions include:
    * `Selector.everywhere`
    * `Selector.comparesNoValue`
    * `Selector.isScopeFree`

  Main statements:
    * `Selector.accepts_congr_case`
    * `Selector.accepts_congr`
    * `Selector.accepts_within`
-/

namespace TreeQuery

variable {E : Engine}

/- Two contexts have the tree, scope and case policy in common. -/
structure Context.Agrees (ctx ctx' : Context) : Prop where
  tree : ctx.tree = ctx'.tree
  scope : ctx.scope = ctx'.scope
  valueCase : ctx.options.valueCase = ctx'.options.valueCase

/- The nodes for a left operand hang on tree and scope only. -/
theorem Combinator.origins_congr
    (c : Combinator)
    (t : Tree)
    (scope : Node)
    (options options' : Options) :
    c.origins ⟨t, scope, options⟩ = c.origins ⟨t, scope, options'⟩ := by
  cases c <;> rfl

namespace Selector

------------------------------------------------------------
-- Selectors Inside of Selectors
------------------------------------------------------------

mutual

/- A test holds of the selector and of every one inside of it. -/
def everywhere (p : Selector E → Bool) (s : Selector E) : Bool :=
  match s with
  | .index _ _ candidate => p s && candidate.everywhere p
  | .compound parts => p s && allEverywhere p parts
  | .group branches => p s && allEverywhere p branches
  | .not inner => p s && inner.everywhere p
  | .is inner => p s && inner.everywhere p
  | .has inner => p s && inner.everywhere p
  | .combine _ left right =>
      p s && left.everywhere p && right.everywhere p
  | _ => p s

/- It holds of several selectors and of those inside of them. -/
def allEverywhere (p : Selector E → Bool) : List (Selector E) → Bool
| [] => true
| s :: rest => s.everywhere p && allEverywhere p rest

end

/- The selector itself compares no attribute value with a text. -/
def comparesNoValue : Selector E → Bool
| .attr _ (.compare _ _) => false
| _ => true

------------------------------------------------------------
-- Options
------------------------------------------------------------

/- No test of an attribute but a comparison regards the case policy. -/
theorem holds_congr_case
    {name : String}
    {test : AttributeTest E}
    (h : (Selector.attr name test).comparesNoValue = true)
    (policy policy' : CasePolicy)
    (value? : Option String) :
    test.holds policy value? = test.holds policy' value? := by
  cases test with
  | compare c expected => simp [comparesNoValue] at h
  | present | matchesPattern => cases value? <;> rfl

mutual

/-
  A selector matches the same nodes under options that have
  the case policy in common, or whatever they are if no value
  is compared in it.
-/
theorem accepts_congr_case
    (s : Selector E)
    (t : Tree)
    (scope : Node)
    {options options' : Options}
    (h :
      options.valueCase = options'.valueCase ∨
        s.everywhere comparesNoValue = true) :
    s.accepts ⟨t, scope, options⟩ = s.accepts ⟨t, scope, options'⟩ := by
  funext n
  cases s with
  | universal | tag | id | className | attrStarting | position
  | onlyChild | onlyOfType | empty | containsText | matchesText | root
  | scope =>
      simp only [accepts, Context.isRoot]
  | attr name test =>
      simp only [accepts]
      rcases h with hSame | hNone
      · rw [hSame]
      · simp only [everywhere] at hNone
        rw [holds_congr_case hNone _ options'.valueCase]
  | index test k candidate =>
      simp only [everywhere, comparesNoValue, Bool.true_and] at h
      simp only [accepts, Context.candidateIndex?,
        accepts_congr_case candidate t scope h]
  | compound parts =>
      simp only [everywhere, comparesNoValue, Bool.true_and] at h
      simp only [accepts, acceptsAll_congr_case parts t scope h]
  | group branches =>
      simp only [everywhere, comparesNoValue, Bool.true_and] at h
      simp only [accepts, acceptsAny_congr_case branches t scope h]
  | not inner | is inner =>
      simp only [everywhere, comparesNoValue, Bool.true_and] at h
      simp only [accepts, accepts_congr_case inner t scope h]
  | has inner =>
      simp only [everywhere, comparesNoValue, Bool.true_and] at h
      simp only [accepts, Context.within, accepts_congr_case inner t n h]
  | combine c left right =>
      simp only [everywhere, comparesNoValue, Bool.true_and,
        Bool.and_eq_true] at h
      have hLeft := accepts_congr_case left t scope (h.imp_right And.left)
      have hRight := accepts_congr_case right t scope (h.imp_right And.right)
      simp only [accepts, hLeft, hRight,
        c.origins_congr t scope options options']

/- So do all parts of a compound. -/
theorem acceptsAll_congr_case
    (parts : List (Selector E))
    (t : Tree)
    (scope : Node)
    {options options' : Options}
    (h :
      options.valueCase = options'.valueCase ∨
        allEverywhere comparesNoValue parts = true) :
    acceptsAll parts ⟨t, scope, options⟩ =
      acceptsAll parts ⟨t, scope, options'⟩ := by
  funext n
  cases parts with
  | nil => rfl
  | cons part parts =>
      rw [allEverywhere, Bool.and_eq_true] at h
      rw [acceptsAll, acceptsAll,
        accepts_congr_case part t scope (h.imp_right And.left),
        acceptsAll_congr_case parts t scope (h.imp_right And.right)]

/- So does any branch of a group. -/
theorem acceptsAny_congr_case
    (branches : List (Selector E))
    (t : Tree)
    (scope : Node)
    {options options' : Options}
    (h :
      options.valueCase = options'.valueCase ∨
        allEverywhere comparesNoValue branches = true) :
    acceptsAny branches ⟨t, scope, options⟩ =
      acceptsAny branches ⟨t, scope, options'⟩ := by
  funext n
  cases branches with
  | nil => rfl
  | cons branch branches =>
      rw [allEverywhere, Bool.and_eq_true] at h
      rw [acceptsAny, acceptsAny,
        accepts_congr_case branch t scope (h.imp_right And.left),
        acceptsAny_congr_case branches t scope (h.imp_right And.right)]

end

/- A selector matches the same nodes in contexts that agree. -/
theorem accepts_congr
    (s : Selector E)
    {ctx ctx' : Context}
    (h : ctx.Agrees ctx') :
    s.accepts ctx = s.accepts ctx' := by
  rcases ctx with ⟨t, scope, options⟩
  rcases ctx' with ⟨t', scope', options'⟩
  rcases h with ⟨rfl, rfl, hCase⟩
  exact s.accepts_congr_case t scope (.inl hCase)

------------------------------------------------------------
-- Scopes
------------------------------------------------------------

mutual

/-
  Nothing in the selector reads its scope, but for what is
  inside of a test of descendants.
-/
def isScopeFree : Selector E → Bool
| .scope | .root | .index _ _ _ | .combine _ _ _ => false
| .compound parts => areAllScopeFree parts
| .group branches => areAllScopeFree branches
| .not inner | .is inner => inner.isScopeFree
| _ => true

/- Nothing in several selectors does. -/
def areAllScopeFree : List (Selector E) → Bool
| [] => true
| s :: rest => s.isScopeFree && areAllScopeFree rest

end

theorem areAllScopeFree_eq_all (selectors : List (Selector E)) :
    areAllScopeFree selectors = selectors.all isScopeFree := by
  induction selectors with
  | nil => simp [areAllScopeFree]
  | cons s rest ih => simp [areAllScopeFree, ih]

mutual

/- A selector that does not read its scope matches alike in all scopes. -/
theorem accepts_within
    (s : Selector E)
    (h : s.isScopeFree = true)
    (ctx : Context)
    (scope : Node) :
    s.accepts (ctx.within scope) = s.accepts ctx := by
  funext n
  cases s with
  | universal | tag | id | className | attr | attrStarting | position
  | onlyChild | onlyOfType | empty | containsText | matchesText | has =>
      simp [accepts, Context.within]
  | scope | root | index | combine => simp [isScopeFree] at h
  | compound parts =>
      rw [isScopeFree] at h
      simp only [accepts, acceptsAll_within parts h ctx scope]
      rfl
  | group branches =>
      rw [isScopeFree] at h
      simp only [accepts, acceptsAny_within branches h ctx scope]
      rfl
  | not inner =>
      rw [isScopeFree] at h
      simp only [accepts, accepts_within inner h ctx scope]
      rfl
  | is inner =>
      rw [isScopeFree] at h
      simp only [accepts, accepts_within inner h ctx scope]
      rfl

/- So do all parts of a compound. -/
theorem acceptsAll_within
    (parts : List (Selector E))
    (h : areAllScopeFree parts = true)
    (ctx : Context)
    (scope : Node) :
    acceptsAll parts (ctx.within scope) = acceptsAll parts ctx := by
  funext n
  cases parts with
  | nil => rfl
  | cons part parts =>
      rw [areAllScopeFree, Bool.and_eq_true] at h
      rw [acceptsAll, acceptsAll, accepts_within part h.1 ctx scope,
        acceptsAll_within parts h.2 ctx scope]

/- So does any branch of a group. -/
theorem acceptsAny_within
    (branches : List (Selector E))
    (h : areAllScopeFree branches = true)
    (ctx : Context)
    (scope : Node) :
    acceptsAny branches (ctx.within scope) = acceptsAny branches ctx := by
  funext n
  cases branches with
  | nil => rfl
  | cons branch branches =>
      rw [areAllScopeFree, Bool.and_eq_true] at h
      rw [acceptsAny, acceptsAny, accepts_within branch h.1 ctx scope,
        acceptsAny_within branches h.2 ctx scope]

end

end Selector

end TreeQuery
