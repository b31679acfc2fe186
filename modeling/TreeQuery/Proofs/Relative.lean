import TreeQuery.Pattern.Standard
import TreeQuery.Proofs.Descendants
import TreeQuery.Proofs.Nesting
import TreeQuery.Proofs.Reading.NormalForm
import TreeQuery.Proofs.Selector.Route

/-
  Relative selectors in tests of descendants.

  A selector in `:has` that begins with the sign of a
  combinator relates its compound to the node that is tested.
  Only nodes below that node are searched.  Its children are
  among them, but what comes after it among its siblings is
  not, so behind `+` and `~` nothing is ever found.

  Main statements:
    * `Selector.accepts_has_combine_scope_iff`
    * `Selector.relative_has_reaches_children_only`
-/

namespace TreeQuery

variable {E : Engine}

------------------------------------------------------------
-- Nodes Below and Beside
------------------------------------------------------------

/- What comes after a node among its siblings is not below it. -/
theorem Node.IsEarlierSibling.not_isBelow
    {n m : Node}
    (h : n.IsEarlierSibling m) :
    ¬ m.IsBelow n := by
  rcases h with ⟨i, j, steps, rfl, rfl, _⟩
  intro hBelow
  have hSelf : (Node.path (i :: steps)).IsBelow (.path (i :: steps)) :=
    hBelow
  exact hSelf.ne_of_path rfl

/- An element child is reached from its parent. -/
theorem Tree.leads_of_parent
    {t : Tree}
    {n m : Node}
    (hElement : t.isElement m = true)
    (hParent : m.parent? = some n) :
    t.Leads t.isElement n m ∧ m ≠ n := by
  rcases m with (_ | ⟨j, steps⟩) | ⟨owner, index⟩
  · cases hParent
  · cases hParent
    refine ⟨.through (mem_children_of_isElement hElement) hElement
      (.here _), ?_⟩
    simp
  · simp [isElement_attr] at hElement

namespace Selector

variable {t : Tree} {options : Options} {scope n : Node}

------------------------------------------------------------
-- Relative Tests of Descendants
------------------------------------------------------------

/-
  A test of descendants that begins with a combinator asks for
  an element below the node that the combinator relates to the
  node itself.
-/
theorem accepts_has_combine_scope_iff
    {c : Combinator}
    {right : Selector E} :
    (Selector.has (.combine c .scope right)).accepts
        ⟨t, scope, options⟩ n = true ↔
      t.isElement n = true ∧
        ∃ m, t.Leads t.isElement n m ∧ m ≠ n ∧
          c.Relates t n m ∧ right.accepts ⟨t, n, options⟩ m = true := by
  rw [accepts_has_iff, collect_withoutRoot_ne_nil_iff]
  refine and_congr_right fun _ => exists_congr fun m => ?_
  refine and_congr_right fun hLeads => and_congr_right fun hOther => ?_
  have hWithin : m.IsWithin (Context.mk t n options).scope :=
    .inr (hLeads.isBelow hOther)
  rw [accepts_combine_iff hWithin]
  constructor
  · rintro ⟨_, hRight, k, _, hRelated, hScope⟩
    have hSubject : k = n := by simpa [accepts] using hScope
    subst hSubject
    exact ⟨hRelated, hRight⟩
  · rintro ⟨hRelated, hRight⟩
    exact ⟨hOther, hRight, n, .inl rfl, hRelated, by simp [accepts]⟩

/-
  Of the combinators with a sign only the one for children
  relates a node to some that are below it.
-/
theorem leads_and_relates_iff
    {sign : Char}
    {c : Combinator}
    (hSign : combinator? sign = some c)
    {m : Node}
    (hElement : t.isElement m = true) :
    t.Leads t.isElement n m ∧ m ≠ n ∧ c.Relates t n m ↔
      c = .child ∧ c.Relates t n m := by
  cases c with
  | descendant =>
      have hMem := mem_of_combinator? hSign
      simp only [List.mem_cons, List.not_mem_nil, or_false] at hMem
      rcases hMem with rfl | rfl | rfl <;> cases hSign
  | child =>
      constructor
      · rintro ⟨_, _, hParent⟩
        exact ⟨rfl, hParent⟩
      · rintro ⟨_, hParent⟩
        rcases Tree.leads_of_parent hElement hParent with ⟨hLeads, hOther⟩
        exact ⟨hLeads, hOther, hParent⟩
  | adjacent =>
      constructor
      · rintro ⟨hLeads, hOther, _, hEarlier, _⟩
        exact absurd (hLeads.isBelow hOther) hEarlier.not_isBelow
      · rintro ⟨hChild, _⟩
        cases hChild
  | sibling =>
      constructor
      · rintro ⟨hLeads, hOther, _, hEarlier⟩
        exact absurd (hLeads.isBelow hOther) hEarlier.not_isBelow
      · rintro ⟨hChild, _⟩
        cases hChild

/- A compound without indexes is related as it is. -/
theorem anchorIndexes_of_isScopeFree
    {b : Selector E}
    (hFree : b.isScopeFree = true)
    (c : Combinator)
    (left : Selector E) :
    anchorIndexes c left b = b := by
  have hPart :
      ∀ {part : Selector E}, part.isScopeFree = true →
        anchorIndex c left part = part := by
    intro part hPart
    cases part with
    | index => simp [isScopeFree] at hPart
    | _ => rfl
  cases b with
  | compound parts =>
      rw [isScopeFree, areAllScopeFree_eq_all, List.all_eq_true] at hFree
      have hSame : parts.map (anchorIndex c left) = parts :=
        List.map_congr_left (fun part hMem => hPart (hFree part hMem))
          |>.trans (List.map_id parts)
      rw [anchorIndexes, hSame]
  | _ => exact hPart hFree

/-
  If the tests do not read the scope, a relative selector is
  found behind `>` where a child matches, and behind `+` and
  `~` nowhere.
-/
theorem accepts_has_relate_scope_iff
    {sign : Char}
    {c : Combinator}
    (hSign : combinator? sign = some c)
    {b : Selector E}
    (hFree : b.isScopeFree = true)
    (hElement : t.isElement n = true) :
    (Selector.has (relate c .scope b)).accepts ⟨t, scope, options⟩ n =
        true ↔
      c = .child ∧
        ∃ m, t.isElement m = true ∧ c.Relates t n m ∧
          b.accepts ⟨t, scope, options⟩ m = true := by
  have hScope : b.accepts ⟨t, n, options⟩ = b.accepts ⟨t, scope, options⟩ :=
    accepts_within b hFree ⟨t, scope, options⟩ n
  rw [relate, anchorIndexes_of_isScopeFree hFree,
    accepts_has_combine_scope_iff, hScope]
  constructor
  · rintro ⟨_, m, hLeads, hOther, hRelated, hMatch⟩
    have hInner := ((Tree.leads_isElement_iff hOther).1 hLeads).1
    have hChild := (leads_and_relates_iff hSign hInner).1
      ⟨hLeads, hOther, hRelated⟩
    exact ⟨hChild.1, m, hInner, hRelated, hMatch⟩
  · rintro ⟨hChild, m, hInner, hRelated, hMatch⟩
    have hBelow := (leads_and_relates_iff hSign hInner).2
      ⟨hChild, hRelated⟩
    exact ⟨hElement, m, hBelow.1, hBelow.2.1, hRelated, hMatch⟩

------------------------------------------------------------
-- Relative Queries
------------------------------------------------------------

/- Behind a sign a query is read as an argument related to the scope. -/
theorem read_around_sign
    (nesting : Nesting)
    {sign : Char}
    {c : Combinator}
    (hSign : combinator? sign = some c)
    {blanks text : String}
    (hBlanks : ∀ x ∈ blanks.toList, Text.isBlank x = true)
    {b : Selector E}
    (hRead : read E text = .ok b)
    (hSingle : ∀ branches, b ≠ .group branches)
    (hCompound : ∀ k l r, b ≠ .combine k l r)
    (hBalanced : isBalanced '(' ')' text.toList = true)
    (hTaken :
      takesBlank false (Text.trim text.toList)
        (Text.endBlanks text.toList) = false) :
    read E (nesting.around (sign.toString ++ blanks ++ text)) =
      .ok (nesting.wrap (relate c .scope b)) := by
  have hText :
      (sign.toString ++ blanks ++ text).toList =
        sign :: (blanks.toList ++ text.toList) := by
    simp
  have hUnblank := (isBlank_of_combinator? hSign).1
  have hTrimmed : Scan.readPart E ⟨0, Text.trim text.toList⟩ = .ok b :=
    (Scan.readPart_trim hTaken).2 (readPart_of_read hRead)
  have hSome : Text.trim text.toList ≠ [] := by
    intro hNil
    rw [hNil] at hTrimmed
    exact Scan.rest_ne_nil_of_readPart hTrimmed rfl
  have hInside :
      isBalanced '(' ')' (sign :: (blanks.toList ++ text.toList)) =
        true := by
    have hFirst : Spans '(' ')' [sign] := by
      refine spans_singleton ?_
      have hMem := mem_of_combinator? hSign
      simp only [List.mem_cons, List.not_mem_nil, or_false] at hMem
      rcases hMem with rfl | rfl | rfl <;> decide
    have hNext : Spans '(' ')' blanks.toList :=
      spans_blanks rfl hBlanks
    exact hFirst.isBalanced_append (hNext.isBalanced_append hBalanced)
  have hInner :
      Scan.readPart E
          ⟨0, Text.trim (sign :: (blanks.toList ++ text.toList))⟩ =
        .ok (relate c .scope b) := by
    rw [Text.trim_cons_append hUnblank hSome]
    refine Scan.readPart_leading_sign hTrimmed hSingle hCompound hSign ?_ 0
    intro x hMem
    rcases List.mem_append.1 hMem with hFirst | hSecond
    · exact hBlanks x hFirst
    · exact List.mem_takeWhile_imp hSecond
  rw [← hText] at hInside hInner
  exact read_eq_ok_iff_readPart.2
    ((Scan.readPart_around_iff nesting).2 ⟨hInside, hInner⟩)

/-
  Behind a sign a compound that does not read the scope, such
  as one of tests of names, ids, classes and attributes, is
  read in `:has` as related to the scope.  It matches an
  element exactly if the sign is `>` and a child matches.  So
  it is as the sign says for `>`, and for `+` and `~` only
  where nothing after the element matches.
-/
theorem relative_has_reaches_children_only
    {text : String}
    {b : Selector E}
    (hRead : read E text = .ok b)
    (hSingle : ∀ branches, b ≠ .group branches)
    (hFree : b.isScopeFree = true)
    {sign : Char}
    {c : Combinator}
    (hSign : combinator? sign = some c) :
    (isBalanced '(' ')' text.toList = true →
        takesBlank false (Text.trim text.toList)
            (Text.endBlanks text.toList) = false →
          ∀ blanks : String,
            (∀ x ∈ blanks.toList, Text.isBlank x = true) →
              read E (":has(" ++ (sign.toString ++ blanks ++ text) ++ ")") =
                .ok (.has (relate c .scope b))) ∧
      ∀ (t : Tree) (options : Options) (scope n : Node),
        t.isElement n = true →
          ((Selector.has (relate c .scope b)).accepts
                ⟨t, scope, options⟩ n = true ↔
              c = .child ∧
                ∃ m, t.isElement m = true ∧ c.Relates t n m ∧
                  b.accepts ⟨t, scope, options⟩ m = true) ∧
            (((Selector.has (relate c .scope b)).accepts
                  ⟨t, scope, options⟩ n = true ↔
                ∃ m, t.isElement m = true ∧ c.Relates t n m ∧
                  b.accepts ⟨t, scope, options⟩ m = true) ↔
              c = .child ∨
                ¬ ∃ m, t.isElement m = true ∧ c.Relates t n m ∧
                  b.accepts ⟨t, scope, options⟩ m = true) := by
  refine ⟨?_, ?_⟩
  · intro hBalanced hTaken blanks hBlanks
    have hCompound : ∀ k l r, b ≠ .combine k l r := by
      rintro k l r rfl
      simp [isScopeFree] at hFree
    exact read_around_sign .has hSign hBlanks hRead hSingle hCompound
      hBalanced hTaken
  · intro t options scope n hElement
    rw [accepts_has_relate_scope_iff hSign hFree hElement,
      and_iff_right_iff_imp]
    exact ⟨Iff.rfl, imp_iff_or_not⟩

/- An element with a child and two siblings behind it. -/
def besideTree : Tree :=
  .element (.unqualified "r") []
    [.element (.unqualified "a") [] [.element (.unqualified "b") [] []],
     .text "x", .element (.unqualified "b") [] [],
     .element (.unqualified "b") [] []]

/- The child is found behind `>`, a sibling behind `~` is not. -/
theorem relative_has_reaches_children_only_beside :
    read .standard "b" = .ok (.tag (.name "b")) ∧
      read .standard ":has(> b)" =
        .ok (.has (.combine .child .scope (.tag (.name "b")))) ∧
      (.has (relate .child .scope
            (.tag (.name "b"))) : Selector .standard).accepts
          ⟨besideTree, .root, {}⟩ (.path [0]) = true ∧
      besideTree.isElement (.path [2]) = true ∧
      ¬ (.has (relate .sibling .scope
            (.tag (.name "b"))) : Selector .standard).accepts
          ⟨besideTree, .root, {}⟩ (.path [2]) = true := by
  have hRead : read .standard "b" = .ok (.tag (.name "b")) := by
    with_unfolding_all rfl
  have hSingle :
      ∀ branches, (.tag (.name "b") : Selector .standard) ≠
        .group branches := by
    simp
  have hTaken :
      takesBlank false (Text.trim "b".toList) (Text.endBlanks "b".toList) =
        false := by
    with_unfolding_all rfl
  have hChild : combinator? '>' = some .child := rfl
  have hSibling : combinator? '~' = some .sibling := rfl
  have hDown := relative_has_reaches_children_only hRead hSingle rfl hChild
  have hBeside :=
    relative_has_reaches_children_only hRead hSingle rfl hSibling
  have hElement : besideTree.isElement (.path [2]) = true := by decide
  refine ⟨hRead, ?_, ?_, hElement, ?_⟩
  · exact hDown.1 (by decide) hTaken " "
      (List.all_iff_forall_prop.1 (by decide))
  · exact ((hDown.2 besideTree {} .root (.path [0]) (by decide)).1).2
      ⟨rfl, .path [0, 0], by decide, rfl, by decide⟩
  · intro hFound
    have hNever :=
      ((hBeside.2 besideTree {} .root (.path [2]) hElement).1).1 hFound
    cases hNever.1

/- Two elements, one behind the other. -/
def pairTree : Tree :=
  .element (.unqualified "r") []
    [.element (.unqualified "a") [] [], .element (.unqualified "b") [] []]

/-
  The next sibling of the element `a` is a `b`, but neither
  `+ b` nor `~ b` is found from it.
-/
theorem relative_has_misses_siblings :
    read .standard "a:has(+ b)" =
        .ok (.compound [.tag (.name "a"),
          .has (.combine .adjacent .scope (.tag (.name "b")))]) ∧
      Combinator.adjacent.Relates pairTree (.path [0]) (.path [1]) ∧
      (.tag (.name "b") : Selector .standard).accepts
          ⟨pairTree, .root, {}⟩ (.path [1]) = true ∧
      (.has (.combine .adjacent .scope
            (.tag (.name "b"))) : Selector .standard).accepts
          ⟨pairTree, .root, {}⟩ (.path [0]) = false ∧
      (.has (.combine .sibling .scope
            (.tag (.name "b"))) : Selector .standard).accepts
          ⟨pairTree, .root, {}⟩ (.path [0]) = false := by
  refine ⟨by with_unfolding_all rfl, ?_, by decide,
    by with_unfolding_all rfl, by with_unfolding_all rfl⟩
  refine ⟨by decide, ⟨0, 1, [], rfl, rfl, by decide⟩, ?_⟩
  rintro k _ ⟨i, j, steps, hFirst, rfl, hLess⟩
    ⟨i', j', steps', hk, hLast, hLess'⟩
  cases hFirst
  cases hk
  cases hLast
  omega

end Selector

end TreeQuery
