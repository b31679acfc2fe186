import TreeQuery.Pattern.Standard
import TreeQuery.Proofs.Collection
import TreeQuery.Proofs.Index
import TreeQuery.Proofs.Nesting
import TreeQuery.Proofs.Reading.Closing
import TreeQuery.Proofs.Reading.Space
import TreeQuery.Proofs.Selector.Route
import TreeQuery.Selector.Rendering

/-
  `:is` around a left operand.

  `:is` matches what the selector within it matches if that is
  an element.  The scope alone is matched without being one, so
  a left operand may be put into `:is` unless it is the scope
  and the scope is a document.  In a query the argument of
  `:is` must then be the text of the operand, which it is where
  the whole is read, and the operand must be read alike in
  front of the combinator.

  Main statements:
    * `Selector.accepts_relate_alike`
    * `Selector.any_origins_is`
    * `Scan.isBalanced_of_readPart_around`
    * `Scan.readPart_related`
    * `Scan.eq_relate_of_readPart_around`
    * `Selector.is_transparent_as_left_operand`
-/

namespace TreeQuery

variable {E : Engine}

------------------------------------------------------------
-- Left Operands That Match Alike
------------------------------------------------------------

namespace Selector

section Alike

variable
  {ctx : Context}
  {c : Combinator}
  {left left' : Selector E}
  (hAlike :
    ∀ n, (c.origins ctx n).any (left.accepts ctx) =
      (c.origins ctx n).any (left'.accepts ctx))

include hAlike

theorem accepts_combine_alike (right : Selector E) :
    (Selector.combine c left right).accepts ctx =
      (Selector.combine c left' right).accepts ctx := by
  funext n
  rw [accepts, accepts, hAlike]

theorem accepts_anchorIndex_alike (part : Selector E) :
    (anchorIndex c left part).accepts ctx =
      (anchorIndex c left' part).accepts ctx := by
  cases part with
  | index test k candidate =>
      funext n
      rw [anchorIndex, anchorIndex, accepts, accepts,
        accepts_combine_alike hAlike candidate]
  | _ => rfl

theorem accepts_anchorIndexes_alike (right : Selector E) :
    (anchorIndexes c left right).accepts ctx =
      (anchorIndexes c left' right).accepts ctx := by
  cases right with
  | compound parts =>
      funext n
      have hPart :
          ∀ part, (anchorIndex c left part).accepts ctx n =
            (anchorIndex c left' part).accepts ctx n := fun part =>
        congrFun (accepts_anchorIndex_alike hAlike part) n
      simp only [anchorIndexes, accepts, acceptsAll_eq_all, List.all_map,
        Function.comp_def, hPart]
  | _ => simp only [anchorIndexes, accepts_anchorIndex_alike hAlike]

/-
  Only what matches among the origins counts, also where an
  index counts what a combinator relates.
-/
theorem accepts_relate_alike (right : Selector E) :
    (relate c left right).accepts ctx =
      (relate c left' right).accepts ctx := by
  funext n
  rw [relate, relate, accepts, accepts, hAlike,
    accepts_anchorIndexes_alike hAlike]

end Alike

/- Selectors that match the same nodes have the same results. -/
theorem collect_alike
    {s s' : Selector E}
    {t : Tree}
    {options : Options}
    {root : Node}
    (h : s.accepts ⟨t, root, options⟩ = s'.accepts ⟨t, root, options⟩) :
    s.collect t options root = s'.collect t options root := by
  have hSelects : s.selects t options root = s'.selects t options root := by
    funext n
    rw [selects, selects, h]
  rw [collect_eq_filter, collect_eq_filter, hSelects]

------------------------------------------------------------
-- Left Operands in `:is`
------------------------------------------------------------

section Is

variable {ctx : Context} {l : Selector E}

theorem accepts_is
    {n : Node}
    (hScope :
      l = .scope → n = ctx.scope → ctx.tree.isElement n = true) :
    (Selector.is l).accepts ctx n = l.accepts ctx n := by
  rw [accepts, Bool.and_eq_right_iff_imp]
  intro hMatch
  rcases isElement_of_accepts hMatch with hElement | ⟨hSame, hNode⟩
  · exact hElement
  · exact hScope hSame hNode

/- A sibling that a left operand is tested on is an element. -/
theorem isElement_of_mem_origins
    {c : Combinator}
    (hBeside : ¬ (c = .descendant ∨ c = .child))
    {m n : Node}
    (hMem : m ∈ c.origins ctx n) :
    ctx.tree.isElement m = true := by
  cases c with
  | descendant => exact absurd (.inl rfl) hBeside
  | child => exact absurd (.inr rfl) hBeside
  | adjacent =>
      rw [Combinator.origins, Option.mem_toList, Tree.previousElement?]
        at hMem
      exact (Tree.mem_precedingElements (List.mem_of_mem_head? hMem)).1
  | sibling => exact (Tree.mem_precedingElements hMem).1

/- The scope itself is found above a node, not beside it. -/
theorem any_origins_is
    {c : Combinator}
    (hScope :
      l = .scope → c = .descendant ∨ c = .child →
        ctx.tree.isElement ctx.scope = true)
    (n : Node) :
    (c.origins ctx n).any ((Selector.is l).accepts ctx) =
      (c.origins ctx n).any (l.accepts ctx) := by
  have hOrigin :
      ∀ m ∈ c.origins ctx n,
        (Selector.is l).accepts ctx m = l.accepts ctx m := by
    intro m hMem
    refine accepts_is fun hSame hNode => ?_
    by_cases hUp : c = .descendant ∨ c = .child
    · exact hNode ▸ hScope hSame hUp
    · exact isElement_of_mem_origins hUp hMem
  rw [Bool.eq_iff_iff, List.any_eq_true, List.any_eq_true]
  refine exists_congr fun m => and_congr_right fun hMem => ?_
  rw [hOrigin m hMem]

end Is

end Selector

namespace Scan

------------------------------------------------------------
-- Arguments of What Is Read
------------------------------------------------------------

/- What begins with no sign begins with a part. -/
theorem exists_part?_of_readPart
    {c : Cursor}
    {s : Selector E}
    (h : readPart E c = .ok s)
    (hSign : c.skipBlanks.rest.head?.bind combinator? = none) :
    ∃ part d,
      value? (part? (readPart E) []) c.skipBlanks = some (some part, d) := by
  rcases readPart_eq_ok_iff.1 h with ⟨d, hGroup⟩
  rw [value?_group, Option.map_eq_some_iff] at hGroup
  rcases hGroup with ⟨⟨branches, e⟩, hBranches, _⟩
  rw [value?_branchesFrom, Option.bind_eq_some_iff] at hBranches
  rcases hBranches with ⟨⟨⟨branch, goesOn⟩, f⟩, hBranch, _⟩
  rcases chain_of_branch hBranch with ⟨_, _, hChain, _⟩
  rw [value?_chain, hSign, if_neg (by simp), Option.bind_eq_some_iff]
    at hChain
  rcases hChain with ⟨⟨first, _⟩, hCompound, _⟩
  rw [value?_compound, Option.bind_eq_some_iff] at hCompound
  rcases hCompound with ⟨⟨parts, _⟩, hParts, hMake⟩
  rw [value?_partsFrom, Option.bind_eq_some_iff] at hParts
  rcases hParts with ⟨⟨_ | part, after⟩, hPart, hMore⟩
  · cases hMore
    simp at hMake
  · exact ⟨part, after, hPart⟩

/- A text is read up to one closing parenthesis at most. -/
theorem readPart_trim_ne_of_closing
    {text : List Char}
    {o o' : Nat}
    {s : Selector E}
    (h : readPart E ⟨o, Text.trim text⟩ = .ok s)
    (more : List Char)
    (t : Selector E) :
    readPart E ⟨o', Text.trim (text ++ ')' :: more)⟩ ≠ .ok t := by
  have hUnblank : Text.isBlank ')' = false := by decide
  have hSome : Text.trim text ≠ [] := by
    intro hNil
    rw [hNil] at h
    exact rest_ne_nil_of_readPart h rfl
  rcases Text.exists_trim_append hUnblank hSome more with ⟨ys, hTrim⟩
  exact readPart_ne_of_closing h (Text.areBlanks_endBlanks _) hTrim t

/-
  If a text is read by itself, and one that begins with it as
  an argument, then the argument is the text: a shorter or a
  longer one would be read past a closing parenthesis.
-/
theorem isBalanced_of_readPart_around
    {nesting : Nesting}
    {text : String}
    {o o' : Nat}
    {s t : Selector E}
    {more : List Char}
    (hText : readPart E ⟨o, Text.trim text.toList⟩ = .ok s)
    (hWhole : readPart E ⟨o', (nesting.around text).toList ++ more⟩ = .ok t) :
    isBalanced '(' ')' text.toList = true := by
  rcases nesting.toList_around text with ⟨name, hColon, _⟩
  have hSkip :
      Cursor.skipBlanks ⟨o', (nesting.around text).toList ++ more⟩ =
        ⟨o', (nesting.around text).toList ++ more⟩ := by
    rw [hColon, List.cons_append]
    exact Cursor.skipBlanks_cons_of_not (by decide) _ _
  have hSign :
      (Cursor.skipBlanks
          ⟨o', (nesting.around text).toList ++ more⟩).rest.head?.bind
        combinator? = none := by
    rw [hSkip, hColon]
    rfl
  rcases exists_part?_of_readPart hWhole hSign with ⟨part, d, hPart⟩
  rw [hSkip] at hPart
  rcases content_of_part?_around hPart with
    ⟨content, u, o'', hSpans, hSplit, hContent, _⟩
  rcases List.append_eq_append_iff.1 hSplit with
    ⟨_ | ⟨x, front⟩, hLonger, hRest⟩ | ⟨_ | ⟨x, front⟩, hShorter, hRest⟩
  · rw [hLonger, List.append_nil] at hSpans
    exact hSpans.isBalanced (by decide)
  · cases (List.cons.inj hRest).1
    rw [hLonger] at hContent
    exact absurd hContent (readPart_trim_ne_of_closing hText front u)
  · rw [List.append_nil] at hShorter
    rw [hShorter]
    exact hSpans.isBalanced (by decide)
  · cases (List.cons.inj hRest).1
    rw [hShorter] at hText
    exact absurd hText (readPart_trim_ne_of_closing hContent front s)

------------------------------------------------------------
-- Combinators Between Texts
------------------------------------------------------------

/- A combinator relates a compound to the selector before it. -/
theorem readPart_related
    {left right : List Char}
    {s t : Selector E}
    (hLeft : readPart E ⟨0, left⟩ = .ok s)
    (hRight : readPart E ⟨0, right⟩ = .ok t)
    (hSingle : ∀ branches, s ≠ .group branches)
    (hSingle' : ∀ branches, t ≠ .group branches)
    (hCompound : ∀ k l r, t ≠ .combine k l r)
    {c : Combinator}
    (hGap : c = .descendant → takesGap left (' ' :: right) = false) :
    readPart E ⟨0, left ++ (c.sign.toList ++ right)⟩ =
      .ok (s.relate c t) := by
  have hSpace : ∀ y ∈ [' '], Text.isAsciiBlank y = true :=
    List.all_iff_forall_prop.1 (by decide)
  have hSigned : ∀ {x}, combinator? x = some c →
      readPart E ⟨0, left ++ ([' '] ++ x :: ([' '] ++ right))⟩ =
        .ok (s.relate c t) := fun hSign =>
    readPart_sign hLeft hRight hSingle hSingle' hCompound hSign hSpace hSpace
  cases c with
  | descendant =>
      exact readPart_space hLeft hRight hSingle hSingle' hCompound
        (hSpace ' ' (by simp)) (hGap rfl)
  | child => exact hSigned (x := '>') rfl
  | adjacent => exact hSigned (x := '+') rfl
  | sibling => exact hSigned (x := '~') rfl

/- Behind its closing parenthesis no blank is taken into a name. -/
theorem takesGap_around
    (nesting : Nesting)
    {text : String}
    (h : isBalanced '(' ')' text.toList = true)
    (more : List Char) :
    takesGap (nesting.around text).toList more = false := by
  have hRead :
      readBalanced? '(' ')' 0 none (text.toList ++ [')']) =
        some (text.toList, []) := by
    simpa [isBalanced] using h
  have hName : ∀ x ∈ nesting.opening.toList, x ≠ '\\' := by
    cases nesting with
    | has => exact List.all_iff_forall_prop.1 (by decide)
    | not => exact List.all_iff_forall_prop.1 (by decide)
    | is => exact List.all_iff_forall_prop.1 (by decide)
  have hText :
      (nesting.around text).toList =
        nesting.opening.toList ++ (text.toList ++ [')']) := by
    simp [Nesting.around]
  rw [takesGap, hText, takesBlank_append hName (by simp) false false,
    takesBlank_balanced (by decide) hRead, takesBlank_nil]
  rfl

/-
  So what goes on behind a nested selector with a combinator
  relates a compound to it, if it is read at all.
-/
theorem eq_relate_of_readPart_around
    {nesting : Nesting}
    {text : String}
    {right : List Char}
    {s t u : Selector E}
    (hText : readPart E ⟨0, Text.trim text.toList⟩ = .ok s)
    (hRight : readPart E ⟨0, right⟩ = .ok t)
    (hSingle : ∀ branches, t ≠ .group branches)
    (hCompound : ∀ k l r, t ≠ .combine k l r)
    {c : Combinator}
    (hWhole :
      readPart E
          ⟨0, (nesting.around text).toList ++ (c.sign.toList ++ right)⟩ =
        .ok u) :
    u = (nesting.wrap s).relate c t := by
  have hBalanced := isBalanced_of_readPart_around hText hWhole
  have hLeft :
      readPart E ⟨0, (nesting.around text).toList⟩ = .ok (nesting.wrap s) :=
    (readPart_around_iff nesting).2 ⟨hBalanced, hText⟩
  have hLeftSingle : ∀ branches, nesting.wrap s ≠ .group branches := by
    intro branches hGroup
    have hSimple := nesting.isSimple_wrap s
    rw [hGroup] at hSimple
    exact absurd hSimple (by simp [Selector.isSimple])
  have hRelated :=
    readPart_related hLeft hRight hLeftSingle hSingle hCompound (c := c)
      fun _ => takesGap_around nesting hBalanced _
  rw [hRelated] at hWhole
  cases hWhole
  rfl

end Scan

------------------------------------------------------------
-- Queries
------------------------------------------------------------

namespace Selector

/-
  A left operand may be put into `:is`: the same nodes match,
  below any scope.  Only the scope itself may not where it is
  no element and is looked for above a node.  So it is with the
  texts of queries where the operand is the same without its
  outer blanks, and the blank behind it, if it stands for the
  combinator, is not taken by an escape at its end.
-/
theorem is_transparent_as_left_operand (E : Engine) :
    (∀ (c : Combinator) (l r : Selector E) (ctx : Context) (n : Node),
      (l = .scope → c = .descendant ∨ c = .child →
          ctx.tree.isElement ctx.scope = true) →
        (Selector.combine c (.is l) r).accepts ctx n =
          (Selector.combine c l r).accepts ctx n) ∧
      ∀ (c : Combinator) (left right : String) (s b u v : Selector E),
        read E left = .ok s →
        (∀ branches, s ≠ .group branches) →
        read E (String.ofList (Text.trim left.toList)) = .ok s →
        read E right = .ok b →
        (∀ branches, b ≠ .group branches) →
        (∀ k l r, b ≠ .combine k l r) →
        (c = .descendant →
          takesGap left.toList (' ' :: right.toList) = false) →
        read E (":is(" ++ left ++ ")" ++ c.sign ++ right) = .ok u →
        read E (left ++ c.sign ++ right) = .ok v →
          ∀ (t : Tree) (options : Options) (root : Node),
            (s = .scope → c = .descendant ∨ c = .child →
                t.isElement root = true) →
              u.collect t options root = v.collect t options root := by
  refine ⟨?_, ?_⟩
  · intro c l r ctx n hScope
    exact congrFun (accepts_combine_alike (any_origins_is hScope) r) n
  · intro c left right s b u v hLeft hSingle hTrim hRight hSingle'
      hCompound hGap hIs hPlain t options root hScope
    have hText :
        (left ++ c.sign ++ right).toList =
          left.toList ++ (c.sign.toList ++ right.toList) := by
      simp
    have hIsText :
        (":is(" ++ left ++ ")" ++ c.sign ++ right).toList =
          (Nesting.is.around left).toList ++
            (c.sign.toList ++ right.toList) := by
      simp [Nesting.around, Nesting.opening]
    rw [read_eq_ok_iff_readPart] at hLeft hTrim hRight hIs hPlain
    rw [String.toList_ofList] at hTrim
    rw [hIsText] at hIs
    rw [hText, Scan.readPart_related hLeft hRight hSingle hSingle'
      hCompound hGap] at hPlain
    cases Scan.eq_relate_of_readPart_around hTrim hRight hSingle' hCompound
      hIs
    cases hPlain
    exact collect_alike (accepts_relate_alike (any_origins_is hScope) b)

/- Two elements below the root are found, in `:is` and without. -/
theorem is_transparent_as_left_operand_scope :
    nestedTree.isElement .root = true ∧
      (.combine .child (.is .scope)
            (.tag (.name "b")) : Selector .standard).accepts
          ⟨nestedTree, .root, {}⟩ (.path [0]) = true ∧
        read .standard ":is(:scope) b" =
            .ok (.combine .descendant (.is .scope) (.tag (.name "b"))) ∧
          (.combine .descendant (.is .scope)
                (.tag (.name "b")) : Selector .standard).collect
              nestedTree {} .root =
            [.path [0], .path [0, 0]] := by
  have hElement : nestedTree.isElement .root = true := by decide
  have hScope : read .standard ":scope" = .ok .scope := by
    with_unfolding_all rfl
  have hTrim :
      read .standard (String.ofList (Text.trim ":scope".toList)) =
        .ok .scope := by
    with_unfolding_all rfl
  have hName : read .standard "b" = .ok (.tag (.name "b")) := by
    with_unfolding_all rfl
  have hGap : takesGap ":scope".toList (' ' :: "b".toList) = false := by
    with_unfolding_all rfl
  have hIs :
      read .standard ":is(:scope) b" =
        .ok (.combine .descendant (.is .scope) (.tag (.name "b"))) := by
    with_unfolding_all rfl
  have hPlain :
      read .standard ":scope b" =
        .ok (.combine .descendant .scope (.tag (.name "b"))) := by
    with_unfolding_all rfl
  have hChild :=
    (is_transparent_as_left_operand .standard).1 .child .scope
      (.tag (.name "b")) ⟨nestedTree, .root, {}⟩ (.path [0])
      fun _ _ => hElement
  have hSame :=
    (is_transparent_as_left_operand .standard).2 .descendant ":scope" "b"
      .scope (.tag (.name "b")) _ _ hScope (by simp) hTrim hName
      (by simp) (by simp) (fun _ => hGap) hIs hPlain nestedTree {} .root
      fun _ _ => hElement
  refine ⟨hElement, hChild.trans (by decide), hIs, hSame.trans ?_⟩
  rw [collect_eq_filter]
  with_unfolding_all rfl

/- An element with the given name in a document. -/
def topTree (name : String) : Tree :=
  .document [.element (.unqualified name) [] []]

/- An element with the given name around one with the name `c`. -/
def aroundTree (name : String) : Tree :=
  .element (.unqualified name) [] [.element (.unqualified "c") [] []]

/-
  The document is the scope, but `:is` does not match it.  The
  blank behind `a\62` belongs to the escape, so that `a\62 c`
  is one name, and the no-break space behind `a` belongs to the
  name, but not at the end of an argument.
-/
theorem is_not_transparent_as_left_operand :
    (∃ u v,
      read .standard ":is(:scope) > a" = .ok u ∧
        read .standard ":scope > a" = .ok v ∧
        u.collect (topTree "a") {} .root = [] ∧
          v.collect (topTree "a") {} .root = [.path [0]]) ∧
      (∃ u v,
        read .standard ":is(a\\62) c" = .ok u ∧
          read .standard "a\\62 c" = .ok v ∧
          u.collect (aroundTree "ab") {} .root = [.path [0]] ∧
            v.collect (aroundTree "ab") {} .root = []) ∧
        ∃ u v,
          read .standard ":is(a\u00a0) > c" = .ok u ∧
            read .standard "a\u00a0 > c" = .ok v ∧
              u.collect (aroundTree "a") {} .root = [.path [0]] ∧
                v.collect (aroundTree "a") {} .root = [] := by
  refine ⟨?_, ?_, ?_⟩
  · refine ⟨.combine .child (.is .scope) (.tag (.name "a")),
      .combine .child .scope (.tag (.name "a")), ?_, ?_, ?_⟩
    · with_unfolding_all rfl
    · with_unfolding_all rfl
    · rw [collect_eq_filter, collect_eq_filter]
      with_unfolding_all exact ⟨rfl, rfl⟩
  · refine ⟨.combine .descendant (.is (.tag (.name "ab")))
        (.tag (.name "c")),
      .tag (.name "abc"), ?_, ?_, ?_⟩
    · with_unfolding_all rfl
    · with_unfolding_all rfl
    · rw [collect_eq_filter, collect_eq_filter]
      with_unfolding_all exact ⟨rfl, rfl⟩
  · refine ⟨.combine .child (.is (.tag (.name "a"))) (.tag (.name "c")),
      .combine .child (.tag (.name "a\u00a0")) (.tag (.name "c")),
      ?_, ?_, ?_⟩
    · with_unfolding_all rfl
    · with_unfolding_all rfl
    · rw [collect_eq_filter, collect_eq_filter]
      with_unfolding_all exact ⟨rfl, rfl⟩

end Selector

end TreeQuery
