import Mathlib.Data.List.Induction
import TreeQuery.Tree.NodeSet

/-
  The index of a node set and its list agree.

  However a set has been filled, its list has no node twice
  and its index holds the nodes of the list.  So a set is as
  good as its list, to which a new node is added at the end.

  Key definitions include:
    * `NodeSet.Consistent`

  Main statements:
    * `NodeSet.toList_insert`
    * `NodeSet.Consistent.extend`
    * `NodeSet.toList_extend`
    * `NodeSet.pairwise_idxOf_eraseDups`
-/

namespace TreeQuery.NodeSet

------------------------------------------------------------
-- Consistency
------------------------------------------------------------

/- The list has no node twice, and the index holds its nodes. -/
structure Consistent (s : NodeSet) : Prop where
  nodup : s.toList.Nodup
  contains_iff (n : Node) : s.contains n = true ↔ n ∈ s.toList

@[simp]
theorem toList_empty : empty.toList = [] :=
  rfl

theorem Consistent.empty : empty.Consistent where
  nodup := List.nodup_nil
  contains_iff n := by simp [NodeSet.empty, NodeSet.contains, toList]

------------------------------------------------------------
-- Insertion
------------------------------------------------------------

/- A new node comes last; a node that is there changes nothing. -/
theorem toList_insert
    {s : NodeSet}
    (hs : s.Consistent)
    (n : Node) :
    (s.insert n).toList =
      if n ∈ s.toList then s.toList else s.toList ++ [n] := by
  have hContains := hs.contains_iff n
  by_cases hMem : n ∈ s.toList
  · have hOld : s.index.contains n = true := hContains.2 hMem
    simp [insert, insertNew, hOld, hMem]
  · have hNew : ¬ s.index.contains n = true := fun h =>
      hMem (hContains.1 h)
    rw [if_neg hMem]
    simp [insert, insertNew, hNew, toList]

theorem Consistent.insert
    {s : NodeSet}
    (hs : s.Consistent)
    (n : Node) :
    (s.insert n).Consistent := by
  by_cases hOld : s.index.contains n = true
  · have hSame : s.insert n = s := by
      simp [NodeSet.insert, insertNew, hOld]
    rw [hSame]
    exact hs
  · have hNotMem : n ∉ s.toList := fun h =>
      hOld ((hs.contains_iff n).2 h)
    have hList := toList_insert hs n
    rw [if_neg hNotMem] at hList
    constructor
    · rw [hList, List.nodup_append]
      refine ⟨hs.nodup, by simp, ?_⟩
      rintro a hMem b hLast rfl
      rw [List.mem_singleton] at hLast
      exact hNotMem (hLast ▸ hMem)
    · intro m
      have hBefore : s.index.contains m = true ↔ m ∈ s.toList :=
        hs.contains_iff m
      rw [hList, List.mem_append, List.mem_singleton, ← hBefore]
      simp only [contains, NodeSet.insert, insertNew, hOld,
        Bool.false_eq_true, ↓reduceIte, Std.HashSet.contains_insert,
        Bool.or_eq_true, beq_iff_eq]
      rw [or_comm, eq_comm (a := n)]

------------------------------------------------------------
-- Several Nodes
------------------------------------------------------------

theorem Consistent.extend
    {s : NodeSet}
    (hs : s.Consistent)
    (ns : List Node) :
    (s.extend ns).Consistent := by
  induction ns generalizing s with
  | nil => exact hs
  | cons n ns ih => exact ih (hs.insert n)

/- A value at the end of a list is kept only if it is new. -/
theorem eraseDups_concat (ns : List Node) (n : Node) :
    (ns ++ [n]).eraseDups =
      if n ∈ ns then ns.eraseDups else ns.eraseDups ++ [n] := by
  rw [List.eraseDups_append]
  by_cases hMem : n ∈ ns
  · simp [List.removeAll, hMem]
  · simp [List.removeAll, hMem, List.eraseDups_cons]

/- A list without repetition is kept as it is. -/
theorem eraseDups_of_nodup
    {ns : List Node}
    (h : ns.Nodup) :
    ns.eraseDups = ns := by
  induction ns using List.reverseRecOn with
  | nil => rfl
  | append_singleton ns n ih =>
      rw [List.nodup_append] at h
      have hNew : n ∉ ns := fun hMem => h.2.2 n hMem n (by simp) rfl
      rw [eraseDups_concat, if_neg hNew, ih h.1]

/- The nodes that are kept come in the order of their first occurrences. -/
theorem pairwise_idxOf_eraseDups (ns : List Node) :
    ns.eraseDups.Pairwise fun m n => ns.idxOf m < ns.idxOf n := by
  induction ns using List.reverseRecOn with
  | nil => exact List.Pairwise.nil
  | append_singleton ns n ih =>
      have hBefore : ∀ m ∈ ns, (ns ++ [n]).idxOf m = ns.idxOf m := by
        intro m hMem
        rw [List.idxOf_append, if_pos hMem]
      have hOld :
          ns.eraseDups.Pairwise fun m k =>
            (ns ++ [n]).idxOf m < (ns ++ [n]).idxOf k := by
        refine ih.imp_of_mem ?_
        intro m k hm hk hLess
        rw [hBefore m (List.mem_eraseDups.1 hm),
          hBefore k (List.mem_eraseDups.1 hk)]
        exact hLess
      rw [eraseDups_concat]
      by_cases hMem : n ∈ ns
      · rw [if_pos hMem]
        exact hOld
      · rw [if_neg hMem, List.pairwise_append]
        refine ⟨hOld, List.pairwise_singleton .., ?_⟩
        intro m hm k hk
        have hOldNode := List.mem_eraseDups.1 hm
        rw [List.mem_singleton.1 hk, hBefore m hOldNode,
          List.idxOf_append, if_neg hMem]
        exact Nat.lt_add_left _ (List.idxOf_lt_length_of_mem hOldNode)

/-
  However many nodes are inserted, the list of the set holds
  all that have come, each where it came first.
-/
theorem toList_extend
    {s : NodeSet}
    (hs : s.Consistent)
    (ns : List Node) :
    (s.extend ns).toList = (s.toList ++ ns).eraseDups := by
  induction ns using List.reverseRecOn with
  | nil =>
      rw [List.append_nil, eraseDups_of_nodup hs.nodup]
      rfl
  | append_singleton ns n ih =>
      have hStep : s.extend (ns ++ [n]) = (s.extend ns).insert n := by
        simp [NodeSet.extend]
      rw [hStep, toList_insert (hs.extend ns), ih, ← List.append_assoc,
        eraseDups_concat]
      simp only [List.mem_eraseDups]

/- Different nodes that are all new come after the old ones. -/
theorem toList_extend_of_new
    {s : NodeSet}
    (hs : s.Consistent)
    {ns : List Node}
    (hNodup : (s.toList ++ ns).Nodup) :
    (s.extend ns).toList = s.toList ++ ns := by
  rw [toList_extend hs, eraseDups_of_nodup hNodup]

/- Extending a set by several lists is extending it by them all. -/
theorem foldl_extend
    (f : Node → List Node)
    (s : NodeSet)
    (roots : List Node) :
    roots.foldl (fun found root => found.extend (f root)) s =
      s.extend (roots.flatMap f) := by
  rw [NodeSet.extend, List.foldl_flatMap]
  rfl

end TreeQuery.NodeSet
