import TreeQuery.Pattern.Standard
import TreeQuery.Proofs.Selector.Progression
import TreeQuery.Proofs.Tree.Siblings
import TreeQuery.Selector.Matching

/-
  Positions among siblings, from either end.

  An element divides the element children of its parent into
  those before and those after it.  Its positions from the
  front count the former and itself, those from the back the
  latter and itself.  So it is counted twice by both together,
  and it is the only one of its kind exactly if it is the
  first and the last.

  Key definitions include:
    * `Tree.sharesTag`
    * `Position.count`

  Main statements:
    * `Tree.exists_elementChildren_split`
    * `Position.of?_of_split`
    * `Selector.accepts_position_iff_reaches`
    * `Selector.positions_mirror_each_other`
-/

namespace TreeQuery

------------------------------------------------------------
-- Siblings
------------------------------------------------------------

namespace Tree

variable {t : Tree} {n p : Node}

/- The names of two nodes as written are the same, up to case. -/
def sharesTag (t : Tree) (m n : Node) : Bool :=
  (t.name? m).any fun a =>
    (t.name? n).any fun b =>
      Text.equalIgnoringCase a.text.toList b.text.toList

/- Elements have names. -/
theorem exists_name_of_isElement (h : t.isElement n = true) :
    ∃ name, t.name? n = some name := by
  cases n with
  | attr owner index => simp [isElement_attr] at h
  | path steps =>
      rw [isElement, kind?, beq_iff_eq, Option.map_eq_some_iff] at h
      rcases h with ⟨s, hSubtree, hKind⟩
      cases s with
      | element name attributes content =>
          exact ⟨name, by simp [name?, hSubtree, rootName?]⟩
      | document content => cases hKind
      | text value => cases hKind
      | comment value => cases hKind

/- Elements have the same tag if their names are the same up to case. -/
theorem tag?_beq
    {m : Node}
    (hm : t.isElement m = true)
    (hn : t.isElement n = true) :
    (t.tag? m == t.tag? n) = t.sharesTag m n := by
  rcases exists_name_of_isElement hm with ⟨a, ha⟩
  rcases exists_name_of_isElement hn with ⟨b, hb⟩
  rw [Bool.eq_iff_iff]
  simp [tag?, sharesTag, ha, hb, Name.tag, Text.asciiLowerString,
    String.ofList_inj]

theorem elementParent?_eq_some_iff :
    t.elementParent? n = some p ↔
      n.parent? = some p ∧ t.isElement p = true := by
  rw [elementParent?, Option.filter_eq_some_iff]

/- An element stands among the element children of its parent. -/
theorem mem_elementChildren_of_isElement
    (hElement : t.isElement n = true)
    (hParent : n.parent? = some p) :
    n ∈ t.elementChildren p := by
  cases n with
  | attr owner index => simp [isElement_attr] at hElement
  | path steps =>
      cases steps with
      | nil => cases hParent
      | cons j steps =>
          cases hParent
          exact List.mem_filter.2
            ⟨mem_children_of_isElement hElement, hElement⟩

/- It divides them where it stands first. -/
theorem exists_elementChildren_split
    (hElement : t.isElement n = true)
    (hParent : n.parent? = some p) :
    ∃ before after,
      t.elementChildren p = before ++ n :: after ∧ n ∉ before :=
  List.eq_append_cons_of_mem
    (mem_elementChildren_of_isElement hElement hParent)

end Tree

------------------------------------------------------------
-- Positions
------------------------------------------------------------

/-
  How many siblings a kind of positions counts, of those
  before and those after a node.
-/
def Position.count
    (kind : Position)
    (sameTag : Node → Bool)
    (before after : List Node) : Nat :=
  match kind with
  | .child => before.length
  | .lastChild => after.length
  | .ofType => before.countP sameTag
  | .lastOfType => after.countP sameTag

/- A position counts the siblings on its side, and the node. -/
theorem Position.of?_of_split
    {t : Tree}
    {n p : Node}
    {before after : List Node}
    (hSplit : t.elementChildren p = before ++ n :: after)
    (hFirst : n ∉ before)
    (kind : Position) :
    kind.of? t n p =
      some (kind.count (fun m => t.tag? m == t.tag? n) before after + 1) := by
  have hIndex :
      (before ++ n :: after).findIdx? (· == n) = some before.length := by
    have hNone : before.findIdx? (· == n) = none := by
      rw [List.findIdx?_eq_none_iff]
      intro m hMem
      simp only [beq_eq_false_iff_ne]
      rintro rfl
      exact hFirst hMem
    rw [List.findIdx?_append, hNone, List.findIdx?_cons]
    simp
  rw [of?, hSplit, hIndex, Option.map_some]
  cases kind with
  | child => rfl
  | lastChild =>
      simp only [count, List.length_append, List.length_cons,
        Option.some.injEq]
      omega
  | ofType =>
      simp only [count, List.take_left]
  | lastOfType =>
      have hDrop :
          (before ++ n :: after).drop (before.length + 1) = after := by
        rw [← List.drop_drop, List.drop_left]
        rfl
      simp only [count, hDrop]

/-
  The siblings before, the siblings after and the node itself
  are all element children of the parent.
-/
theorem Position.count_add_count
    {t : Tree}
    {n p : Node}
    {before after : List Node}
    (hSplit : t.elementChildren p = before ++ n :: after)
    (sameTag : Node → Bool)
    (hSame : sameTag n = true) :
    Position.child.count sameTag before after +
          Position.lastChild.count sameTag before after + 1 =
        (t.elementChildren p).length ∧
      Position.ofType.count sameTag before after +
          Position.lastOfType.count sameTag before after + 1 =
        (t.elementChildren p).countP sameTag := by
  rw [hSplit]
  constructor
  · simp only [count, List.length_append, List.length_cons]
    omega
  · simp only [count, List.countP_append, List.countP_cons_of_pos hSame]
    omega

/- So no position is beyond the number of element children. -/
theorem Position.count_lt
    {t : Tree}
    {n p : Node}
    {before after : List Node}
    (hSplit : t.elementChildren p = before ++ n :: after)
    (kind : Position)
    (sameTag : Node → Bool) :
    kind.count sameTag before after < (t.elementChildren p).length := by
  have hBefore := List.countP_le_length (p := sameTag) (l := before)
  have hAfter := List.countP_le_length (p := sameTag) (l := after)
  rw [hSplit, List.length_append, List.length_cons]
  cases kind with
  | child | lastChild | ofType | lastOfType =>
      simp only [count]
      omega

------------------------------------------------------------
-- Matching
------------------------------------------------------------

namespace Selector

variable {E : Engine} {ctx : Context} {n : Node}

/- Without an element as parent no position is matched. -/
theorem not_accepts_of_elementParent?_eq_none
    (hParent : ctx.tree.elementParent? n = none) :
    (∀ kind formula,
        (.position kind formula : Selector E).accepts ctx n = false) ∧
      (.onlyChild : Selector E).accepts ctx n = false ∧
        (.onlyOfType : Selector E).accepts ctx n = false := by
  simp [accepts, Position.holds, Tree.isOnlyChild, Tree.isOnlyOfType,
    hParent]

/-
  Below an element with no more than `2 ^ 31` element children
  an element is matched exactly if the formula reaches its
  position.  The test overflows at none of these.
-/
theorem accepts_position_iff_reaches
    {p : Node}
    (hElement : ctx.tree.isElement n = true)
    (hParent : ctx.tree.elementParent? n = some p)
    (hFew : (ctx.tree.elementChildren p).length ≤ 2 ^ 31)
    (kind : Position)
    (formula : Formula) :
    (.position kind formula : Selector E).accepts ctx n = true ↔
      ∃ k, kind.of? ctx.tree n p = some k ∧ formula.Reaches k := by
  rcases Tree.exists_elementChildren_split hElement
    (Tree.elementParent?_eq_some_iff.1 hParent).1 with
    ⟨before, after, hSplit, hFirst⟩
  have hCount :=
    Position.count_lt hSplit kind
      (fun m => ctx.tree.tag? m == ctx.tree.tag? n)
  have hPosition := Position.of?_of_split hSplit hFirst kind
  rw [accepts, hElement, Bool.true_and, Position.holds, hParent,
    Option.bind_some, hPosition, Option.any_some,
    Formula.accepts_iff_reaches (by omega)]
  simp only [Option.some.injEq, exists_eq_left']

/- The first position of a kind is the one that counts no sibling. -/
theorem accepts_position_first_iff
    {p : Node}
    {before after : List Node}
    (hElement : ctx.tree.isElement n = true)
    (hParent : ctx.tree.elementParent? n = some p)
    (hSplit : ctx.tree.elementChildren p = before ++ n :: after)
    (hFirst : n ∉ before)
    (kind : Position) :
    (.position kind .first : Selector E).accepts ctx n = true ↔
      kind.count (fun m => ctx.tree.tag? m == ctx.tree.tag? n)
        before after = 0 := by
  rw [accepts, hElement, Bool.true_and, Position.holds, hParent,
    Option.bind_some, Position.of?_of_split hSplit hFirst, Option.any_some,
    Formula.accepts_first_iff]
  omega

/-
  An element is an only child exactly if it is the first and
  the last, and the only one of its tag exactly if it is the
  first and the last of these.
-/
theorem accepts_only_iff (hElement : ctx.tree.isElement n = true) :
    ((.onlyChild : Selector E).accepts ctx n = true ↔
        (.position .child .first : Selector E).accepts ctx n = true ∧
          (.position .lastChild .first : Selector E).accepts ctx n = true) ∧
      ((.onlyOfType : Selector E).accepts ctx n = true ↔
        (.position .ofType .first : Selector E).accepts ctx n = true ∧
          (.position .lastOfType .first : Selector E).accepts ctx n =
            true) := by
  cases hParent : ctx.tree.elementParent? n with
  | none => simp [not_accepts_of_elementParent?_eq_none hParent]
  | some p =>
      rcases Tree.exists_elementChildren_split hElement
        (Tree.elementParent?_eq_some_iff.1 hParent).1 with
        ⟨before, after, hSplit, hFirst⟩
      have hCounts :=
        Position.count_add_count hSplit
          (fun m => ctx.tree.tag? m == ctx.tree.tag? n) (by simp)
      simp only [accepts_position_first_iff hElement hParent hSplit hFirst]
      constructor
      · rw [accepts, hElement, Bool.true_and, Tree.isOnlyChild, hParent,
          Option.any_some, beq_iff_eq, ← hCounts.1]
        omega
      · rw [accepts, hElement, Bool.true_and, Tree.isOnlyOfType, hParent,
          Option.any_some, beq_iff_eq, ← hCounts.2]
        omega

/-
  Below an element the positions of an element from the front
  and from the back are one more together than there are
  element children, those of its tag one more than there are
  of these.  An element is the only one exactly if it is the
  first and the last.  An element without a parent, or below
  a document, has no position.
-/
theorem positions_mirror_each_other
    (E : Engine)
    {ctx : Context}
    {n : Node}
    (hElement : ctx.tree.isElement n = true) :
    (∀ p, n.parent? = some p → ctx.tree.isElement p = true →
        ∃ front back frontOfType backOfType,
          Position.child.of? ctx.tree n p = some front ∧
            Position.lastChild.of? ctx.tree n p = some back ∧
            Position.ofType.of? ctx.tree n p = some frontOfType ∧
            Position.lastOfType.of? ctx.tree n p = some backOfType ∧
            1 ≤ front ∧ 1 ≤ back ∧ 1 ≤ frontOfType ∧ 1 ≤ backOfType ∧
            front + back = (ctx.tree.elementChildren p).length + 1 ∧
            frontOfType + backOfType =
              (ctx.tree.elementChildren p).countP
                (ctx.tree.sharesTag · n) + 1) ∧
      ((.onlyChild : Selector E).accepts ctx n = true ↔
        (.position .child .first : Selector E).accepts ctx n = true ∧
          (.position .lastChild .first : Selector E).accepts ctx n = true) ∧
      ((.onlyOfType : Selector E).accepts ctx n = true ↔
        (.position .ofType .first : Selector E).accepts ctx n = true ∧
          (.position .lastOfType .first : Selector E).accepts ctx n = true) ∧
      ((∀ p, n.parent? = some p → ctx.tree.kind? p = some .document) →
        (∀ kind formula,
            (.position kind formula : Selector E).accepts ctx n = false) ∧
          (.onlyChild : Selector E).accepts ctx n = false ∧
            (.onlyOfType : Selector E).accepts ctx n = false) := by
  refine ⟨?_, (accepts_only_iff hElement).1, (accepts_only_iff hElement).2,
    ?_⟩
  · intro p hParent _
    rcases Tree.exists_elementChildren_split hElement hParent with
      ⟨before, after, hSplit, hFirst⟩
    have hCounts :=
      Position.count_add_count hSplit
        (fun m => ctx.tree.tag? m == ctx.tree.tag? n) (by simp)
    have hTags :
        (ctx.tree.elementChildren p).countP
            (fun m => ctx.tree.tag? m == ctx.tree.tag? n) =
          (ctx.tree.elementChildren p).countP
            (ctx.tree.sharesTag · n) := by
      apply List.countP_congr
      intro m hMem
      rw [Tree.tag?_beq (List.mem_filter.1 hMem).2 hElement]
    refine ⟨_, _, _, _, Position.of?_of_split hSplit hFirst _,
      Position.of?_of_split hSplit hFirst _,
      Position.of?_of_split hSplit hFirst _,
      Position.of?_of_split hSplit hFirst _, ?_⟩
    rw [← hTags, ← hCounts.1, ← hCounts.2]
    omega
  · intro hAbove
    apply not_accepts_of_elementParent?_eq_none
    rw [Option.eq_none_iff_forall_ne_some]
    intro p hParent
    rcases Tree.elementParent?_eq_some_iff.1 hParent with
      ⟨hPath, hKind⟩
    simp [Tree.isElement, hAbove p hPath] at hKind

/- Elements in both cases, with a text and a comment between them. -/
def mixedSiblings : Tree :=
  .element (.unqualified "ul") []
    [.text "x", .element (.unqualified "a") [] [], .comment "c",
      .element (.unqualified "B") [] [], .element (.unqualified "b") [] []]

/- The second of three elements is the first of two with its tag. -/
theorem positions_mirror_each_other_mixed :
    mixedSiblings.isElement (.path [3]) = true ∧
      (mixedSiblings.elementChildren .root).length = 3 ∧
      ∃ front back frontOfType backOfType,
        Position.child.of? mixedSiblings (.path [3]) .root = some front ∧
          Position.lastChild.of? mixedSiblings (.path [3]) .root =
            some back ∧
          Position.ofType.of? mixedSiblings (.path [3]) .root =
            some frontOfType ∧
          Position.lastOfType.of? mixedSiblings (.path [3]) .root =
            some backOfType ∧
          front + back = 4 ∧ frontOfType + backOfType = 3 := by
  have hElement :
      (Context.mk mixedSiblings .root {}).tree.isElement (.path [3]) =
        true := by
    decide
  have hLength : (mixedSiblings.elementChildren .root).length = 3 := by
    decide
  have hCount :
      (mixedSiblings.elementChildren .root).countP
        (mixedSiblings.sharesTag · (.path [3])) = 2 := by
    decide
  rcases positions_mirror_each_other .standard hElement with ⟨hMirror, _⟩
  rcases hMirror .root rfl (by decide) with
    ⟨front, back, frontOfType, backOfType, hFront, hBack, hFrontOfType,
      hBackOfType, _, _, _, _, hAll, hTag⟩
  simp only [hLength, hCount] at hAll hTag
  exact ⟨hElement, hLength, front, back, frontOfType, backOfType, hFront,
    hBack, hFrontOfType, hBackOfType, hAll, hTag⟩

end Selector

end TreeQuery
