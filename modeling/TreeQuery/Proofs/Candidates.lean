import Mathlib.Data.List.Nodup
import TreeQuery.Proofs.Index

/-
  Candidates of an index among the children of a node.

  The index of a candidate counts the candidates before it.
  Along the children of a node it goes up by one from each
  candidate to the next, so a test of it takes candidates from
  the front, from the back, or the one with a given number.

  Key definitions include:
    * `Context.candidates`
    * `IndexTest.chosen`

  Main statements:
    * `Context.map_candidateIndex?_of_split`
    * `Selector.filter_index_eq_chosen`
    * `Selector.candidates_are_enumerated`
-/

namespace TreeQuery

variable {E : Engine}

------------------------------------------------------------
-- Element Children
------------------------------------------------------------

namespace Tree

variable {t : Tree} {n p : Node}

theorem parent?_of_mem_children (h : n ∈ t.children p) :
    n.parent? = some p := by
  rcases mem_children_iff.1 h with ⟨steps, s, i, rfl, _, _, rfl⟩
  rfl

/- No child is counted twice. -/
theorem nodup_children (t : Tree) (p : Node) :
    (t.children p).Nodup := by
  cases p with
  | attr owner index => simp [children]
  | path steps =>
      rcases t.children_eq_map_range steps with ⟨k, hChildren⟩
      rw [hChildren]
      refine List.nodup_range.map ?_
      intro i j hSame
      cases hSame
      rfl

theorem nodup_elementChildren (t : Tree) (p : Node) :
    (t.elementChildren p).Nodup :=
  (t.nodup_children p).filter _

/- A child of a node of the scope is below the scope. -/
theorem ne_of_mem_children
    {scope : Node}
    (h : n ∈ t.children p)
    (hWithin : p.IsWithin scope) :
    n ≠ scope := by
  have hBelow : n.IsBelow scope := by
    rw [Node.IsBelow, Node.ancestors_eq, parent?_of_mem_children h,
      List.mem_cons]
    exact hWithin.imp Eq.symm id
  rcases mem_children_iff.1 h with ⟨steps, s, i, _, _, _, rfl⟩
  exact hBelow.ne_of_path

/- The elements before a child are the ones on its left. -/
theorem precedingElements_of_split
    {before after : List Node}
    (hSplit : t.elementChildren p = before ++ n :: after) :
    t.precedingElements n = before.reverse := by
  have hMem : n ∈ t.elementChildren p := by simp [hSplit]
  have hNodup := t.nodup_elementChildren p
  rw [hSplit, List.nodup_append] at hNodup
  have hBefore : ∀ m ∈ before, (m != n) = true := by
    intro m hLeft
    simpa using hNodup.2.2 m hLeft n (by simp)
  rw [precedingElements, parent?_of_mem_children (List.mem_filter.1 hMem).1]
  simp only [hSplit]
  rw [List.takeWhile_append_of_pos hBefore,
    List.takeWhile_cons_of_neg (by simp), List.append_nil]

end Tree

------------------------------------------------------------
-- Indexes of Candidates
------------------------------------------------------------

namespace Context

/- The children of a node among which an index counts. -/
def candidates (ctx : Context) (candidate : Node → Bool) (p : Node) :
    List Node :=
  (ctx.tree.elementChildren p).filter candidate

variable {ctx : Context} {candidate : Node → Bool} {n p : Node}

theorem candidateIndex?_of_not
    (h : candidate n = false) :
    ctx.candidateIndex? candidate n = none := by
  simp [candidateIndex?, h]

variable (hWithin : p.IsWithin ctx.scope)

include hWithin

/- The index of a candidate is the number of those before it. -/
theorem candidateIndex?_of_split
    {before after : List Node}
    (hSplit : ctx.tree.elementChildren p = before ++ n :: after)
    (hCandidate : candidate n = true) :
    ctx.candidateIndex? candidate n = some (before.countP candidate) := by
  have hMem : n ∈ ctx.tree.elementChildren p := by simp [hSplit]
  have hOther : n ≠ ctx.scope :=
    Tree.ne_of_mem_children (List.mem_filter.1 hMem).1 hWithin
  rw [candidateIndex?, Tree.precedingElements_of_split hSplit,
    List.countP_reverse, if_pos (by simp [hOther, hCandidate])]

/-
  Behind some of the children the indexes go on from the
  number of candidates among these.
-/
theorem map_candidateIndex?_of_split
    {before rest : List Node}
    (hSplit : ctx.tree.elementChildren p = before ++ rest) :
    (rest.filter candidate).map (ctx.candidateIndex? candidate) =
      (List.range' (before.countP candidate)
        (rest.countP candidate)).map some := by
  induction rest generalizing before with
  | nil => rfl
  | cons n rest ih =>
      have hNext :
          ctx.tree.elementChildren p = (before ++ [n]) ++ rest := by
        simpa using hSplit
      have hRest := ih hNext
      cases hCandidate : candidate n with
      | true =>
          have hCount :
              (before ++ [n]).countP candidate =
                before.countP candidate + 1 := by
            simp [hCandidate]
          rw [List.filter_cons_of_pos hCandidate,
            List.countP_cons_of_pos hCandidate, List.range'_succ,
            List.map_cons, List.map_cons, ← hCount, hRest,
            candidateIndex?_of_split hWithin hSplit hCandidate]
      | false =>
          have hNot : ¬ candidate n = true := by simp [hCandidate]
          have hCount :
              (before ++ [n]).countP candidate =
                before.countP candidate := by
            simp [hCandidate]
          rw [List.filter_cons_of_neg hNot, List.countP_cons_of_neg hNot,
            ← hCount, hRest]

/- The candidates are numbered from zero, in order. -/
theorem map_candidateIndex?_candidates :
    (ctx.candidates candidate p).map (ctx.candidateIndex? candidate) =
      (List.range (ctx.candidates candidate p).length).map some := by
  have hAll :
      ((ctx.tree.elementChildren p).filter candidate).map
          (ctx.candidateIndex? candidate) =
        (List.range' (List.countP candidate [])
          ((ctx.tree.elementChildren p).countP candidate)).map some :=
    map_candidateIndex?_of_split hWithin
      (List.nil_append (ctx.tree.elementChildren p)).symm
  rw [List.countP_nil, List.countP_eq_length_filter,
    ← List.range_eq_range'] at hAll
  exact hAll

theorem candidateIndex?_of_getElem?
    {i : Nat}
    (h : (ctx.candidates candidate p)[i]? = some n) :
    ctx.candidateIndex? candidate n = some i := by
  have hLess : i < (ctx.candidates candidate p).length :=
    (List.getElem?_eq_some_iff.1 h).1
  have hAt :
      ((ctx.candidates candidate p).map
          (ctx.candidateIndex? candidate))[i]? =
        ((List.range (ctx.candidates candidate p).length).map some)[i]? := by
    rw [map_candidateIndex?_candidates hWithin]
  rw [List.getElem?_map, List.getElem?_map, h,
    List.getElem?_range hLess] at hAt
  simpa using hAt

end Context

------------------------------------------------------------
-- Tests
------------------------------------------------------------

/- What a test of its position leaves of a list. -/
def IndexTest.chosen (test : IndexTest) (k : Nat) (ns : List Node) :
    List Node :=
  match test with
  | .lessThan => ns.take k
  | .equalTo => ns[k]?.toList
  | .greaterThan => ns.drop (k + 1)

namespace IndexTest

variable {ns : List Node} {n : Node}

/- The three tests divide a list into consecutive parts. -/
theorem chosen_append (k : Nat) (ns : List Node) :
    lessThan.chosen k ns ++ equalTo.chosen k ns ++
        greaterThan.chosen k ns =
      ns := by
  rw [chosen, chosen, chosen, ← List.take_add_one, List.take_append_drop]

theorem exists_of_mem_chosen
    {test : IndexTest}
    {k : Nat}
    (h : n ∈ test.chosen k ns) :
    ∃ i, ns[i]? = some n ∧ test.holds i k = true := by
  cases test with
  | lessThan =>
      rcases List.mem_take_iff_getElem.1 h with ⟨i, hLess, rfl⟩
      have hBoth : i < k ∧ i < ns.length := by omega
      exact ⟨i, List.getElem?_eq_getElem hBoth.2, by simp [holds, hBoth.1]⟩
  | equalTo =>
      exact ⟨k, Option.mem_toList.1 h, by simp [holds]⟩
  | greaterThan =>
      rcases List.mem_drop_iff_getElem.1 h with ⟨i, hLess, rfl⟩
      exact ⟨k + 1 + i, List.getElem?_eq_getElem _, by
        simp only [holds, decide_eq_true_eq]
        omega⟩

/- Only one test holds of a position. -/
theorem eq_of_holds
    {test other : IndexTest}
    {i k : Nat}
    (h : test.holds i k = true)
    (hOther : other.holds i k = true) :
    test = other := by
  cases test <;> cases other <;>
    simp only [holds, decide_eq_true_eq, beq_iff_eq] at h hOther <;>
    first
    | rfl
    | omega

/-
  Where the nodes of a list are numbered in order, those whose
  number passes a test are the ones that it leaves.
-/
theorem filter_eq_chosen
    {index : Node → Option Nat}
    (hIndex : ∀ i n, ns[i]? = some n → index n = some i)
    (test : IndexTest)
    (k : Nat) :
    ns.filter (fun n => (index n).any (test.holds · k)) =
      test.chosen k ns := by
  have hPart :
      ∀ other : IndexTest,
        (other.chosen k ns).filter
            (fun n => (index n).any (test.holds · k)) =
          if other = test then other.chosen k ns else [] := by
    intro other
    split
    · next hSame =>
        rw [List.filter_eq_self]
        intro n hMem
        rcases exists_of_mem_chosen hMem with ⟨i, hAt, hHolds⟩
        rw [hIndex i n hAt, Option.any_some, ← hSame, hHolds]
    · next hDiffers =>
        rw [List.filter_eq_nil_iff]
        intro n hMem hPasses
        rcases exists_of_mem_chosen hMem with ⟨i, hAt, hHolds⟩
        rw [hIndex i n hAt, Option.any_some] at hPasses
        exact hDiffers (eq_of_holds hHolds hPasses)
  conv_lhs => rw [← chosen_append k ns]
  rw [List.filter_append, List.filter_append, hPart, hPart, hPart]
  cases test with
  | lessThan => simp
  | equalTo => simp
  | greaterThan => simp

end IndexTest

namespace Selector

variable {ctx : Context} {p : Node}

/-
  The children with an index that passes a test are the
  candidates that the test leaves.
-/
theorem filter_index_eq_chosen
    (hWithin : p.IsWithin ctx.scope)
    (candidate : Selector E)
    (test : IndexTest)
    (k : Nat) :
    (ctx.tree.children p).filter
        ((Selector.index test k candidate).accepts ctx) =
      test.chosen k (ctx.candidates (candidate.accepts ctx) p) := by
  have hNumbered :
      ∀ i n, (ctx.candidates (candidate.accepts ctx) p)[i]? = some n →
        ctx.candidateIndex? (candidate.accepts ctx) n = some i :=
    fun _ _ hAt => Context.candidateIndex?_of_getElem? hWithin hAt
  rw [← IndexTest.filter_eq_chosen hNumbered test k, Context.candidates,
    Tree.elementChildren, List.filter_filter, List.filter_filter]
  apply List.filter_congr
  intro n _
  rw [accepts]
  cases hCandidate : candidate.accepts ctx n with
  | true => simp [Bool.and_comm]
  | false => simp [Context.candidateIndex?_of_not hCandidate]

/-
  The children of a node of the scope that a selector matches
  are numbered from zero in document order, and the others
  have no number.  Of `k` numbers the test of equality finds
  one if it is below `k` and else none, the other two find the
  candidates before and behind it, and so every candidate is
  found by exactly one of them.
-/
theorem candidates_are_enumerated
    (hWithin : p.IsWithin ctx.scope)
    (candidate : Selector E) :
    (ctx.candidates (candidate.accepts ctx) p).map
          (ctx.candidateIndex? (candidate.accepts ctx)) =
        (List.range
          (ctx.candidates (candidate.accepts ctx) p).length).map some ∧
      (∀ n ∈ ctx.tree.elementChildren p,
        n ∉ ctx.candidates (candidate.accepts ctx) p →
          ctx.candidateIndex? (candidate.accepts ctx) n = none) ∧
      (ctx.candidates (candidate.accepts ctx) p).Nodup ∧
      ∀ k,
        (ctx.tree.children p).filter
              ((Selector.index .equalTo k candidate).accepts ctx) =
            (ctx.candidates (candidate.accepts ctx) p)[k]?.toList ∧
          (ctx.tree.children p).countP
                ((Selector.index .equalTo k candidate).accepts ctx) =
            (if k < (ctx.candidates (candidate.accepts ctx) p).length then 1
              else 0) ∧
          (ctx.tree.children p).filter
                ((Selector.index .lessThan k candidate).accepts ctx) =
            (ctx.candidates (candidate.accepts ctx) p).take
              (min k
                (ctx.candidates (candidate.accepts ctx) p).length) ∧
          (ctx.tree.children p).filter
                ((Selector.index .greaterThan k candidate).accepts ctx) =
            (ctx.candidates (candidate.accepts ctx) p).drop (k + 1) ∧
          (ctx.tree.children p).filter
                  ((Selector.index .lessThan k candidate).accepts ctx) ++
                (ctx.tree.children p).filter
                  ((Selector.index .equalTo k candidate).accepts ctx) ++
              (ctx.tree.children p).filter
                ((Selector.index .greaterThan k candidate).accepts ctx) =
            ctx.candidates (candidate.accepts ctx) p := by
  refine ⟨Context.map_candidateIndex?_candidates hWithin, ?_,
    (ctx.tree.nodup_elementChildren p).filter _, fun k => ?_⟩
  · intro n hMem hNot
    apply Context.candidateIndex?_of_not
    rw [Bool.eq_false_iff]
    exact fun hCandidate => hNot (List.mem_filter.2 ⟨hMem, hCandidate⟩)
  · rw [List.countP_eq_length_filter]
    simp only [filter_index_eq_chosen hWithin, IndexTest.chosen_append,
      and_true]
    refine ⟨rfl, ?_, ?_, rfl⟩
    · rw [IndexTest.chosen]
      by_cases hLess :
          k < (ctx.candidates (candidate.accepts ctx) p).length
      · rw [List.getElem?_eq_getElem hLess, if_pos hLess]
        rfl
      · rw [List.getElem?_eq_none (Nat.le_of_not_lt hLess), if_neg hLess]
        rfl
    · rw [IndexTest.chosen, List.take_eq_take_min]

/- Elements in a row, the second and the last of them after an `a`. -/
def alternating : Tree :=
  .element (.unqualified "r") []
    [.element (.unqualified "a") [] [], .element (.unqualified "b") [] [],
     .text "x", .element (.unqualified "b") [] [],
     .element (.unqualified "a") [] [], .comment "c",
     .element (.unqualified "b") [] []]

/- The candidates directly after an `a` are the first and the last `b`. -/
theorem candidates_are_enumerated_adjacent :
    Node.root.IsWithin (Context.mk alternating .root {}).scope ∧
      (Context.mk alternating .root {}).candidateIndex?
            ((.combine .adjacent (.tag (.name "a"))
                (.tag (.name "b")) : Selector .standard).accepts
              ⟨alternating, .root, {}⟩)
            (.path [6]) =
          some 1 ∧
        (alternating.children .root).filter
            ((.index .equalTo 1
                (.combine .adjacent (.tag (.name "a"))
                  (.tag (.name "b"))) : Selector .standard).accepts
              ⟨alternating, .root, {}⟩) =
          [.path [6]] := by
  have hWithin :
      Node.root.IsWithin (Context.mk alternating .root {}).scope :=
    .inl rfl
  have hFound :
      (Context.mk alternating .root {}).candidates
          ((.combine .adjacent (.tag (.name "a"))
              (.tag (.name "b")) : Selector .standard).accepts
            ⟨alternating, .root, {}⟩)
          .root =
        [.path [1], .path [6]] := by
    decide
  rcases candidates_are_enumerated hWithin
    (.combine .adjacent (.tag (.name "a")) (.tag (.name "b"))) with
    ⟨hNumbers, _, _, hTests⟩
  rw [hFound] at hNumbers
  have hEqual := (hTests 1).1
  rw [hFound] at hEqual
  refine ⟨hWithin, ?_, hEqual⟩
  exact (List.cons.inj (List.cons.inj hNumbers).2).1

end Selector

end TreeQuery
