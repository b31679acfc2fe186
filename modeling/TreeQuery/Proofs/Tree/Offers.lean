import TreeQuery.Proofs.Tree.NodeSet

/-
  Node sets after any number of changes.

  A set is offered nodes, one at a time or several together,
  or is made anew from a list.  Whatever the order of these
  changes, its index and its array tell the same, and both
  tell which nodes came first.

  Key definitions include:
    * `NodeSet.Change`
    * `NodeSet.after`
    * `NodeSet.offered`
    * `NodeSet.Keeps`

  Main statements:
    * `NodeSet.Keeps.change`
    * `NodeSet.keeps_after`
    * `NodeSet.changes_keep_first_offers`
-/

namespace TreeQuery.NodeSet

------------------------------------------------------------
-- Changes
------------------------------------------------------------

/- What is done to a set. -/
inductive Change where
| insert (n : Node)
| extend (ns : List Node)
| ofList (ns : List Node)
deriving DecidableEq, Repr

/- The set with a change.  A set made from a list forgets its nodes. -/
def change (s : NodeSet) : Change → NodeSet
| .insert n => s.insert n
| .extend ns => s.extend ns
| .ofList ns => NodeSet.ofList ns

/- The set that several changes make of the set without nodes. -/
def after (changes : List Change) : NodeSet :=
  changes.foldl change empty

/- The nodes that have been offered, with those of one more change. -/
def offer (ns : List Node) : Change → List Node
| .insert n => ns ++ [n]
| .extend ms => ns ++ ms
| .ofList ms => ms

/- All nodes that several changes offer to a set, in order. -/
def offered (changes : List Change) : List Node :=
  changes.foldl offer []

------------------------------------------------------------
-- One Change
------------------------------------------------------------

/-
  The set is consistent and holds the nodes of the list, each
  where it comes first.
-/
structure Keeps (s : NodeSet) (ns : List Node) : Prop where
  consistent : s.Consistent
  toList_eq : s.toList = ns.eraseDups

theorem Keeps.empty : Keeps .empty [] where
  consistent := Consistent.empty
  toList_eq := rfl

/- What has been kept from a list is as good as the list. -/
theorem eraseDups_append_eraseDups (ns ms : List Node) :
    (ns.eraseDups ++ ms).eraseDups = (ns ++ ms).eraseDups := by
  induction ms using List.reverseRecOn with
  | nil =>
      rw [List.append_nil, List.append_nil]
      exact eraseDups_of_nodup
        ((pairwise_idxOf_eraseDups ns).imp (by rintro m _ h rfl; omega))
  | append_singleton ms m ih =>
      rw [← List.append_assoc, ← List.append_assoc, eraseDups_concat,
        eraseDups_concat, ih]
      simp only [List.mem_append, List.mem_eraseDups]

theorem Keeps.extend
    {s : NodeSet}
    {ns : List Node}
    (h : s.Keeps ns)
    (ms : List Node) :
    (s.extend ms).Keeps (ns ++ ms) where
  consistent := h.consistent.extend ms
  toList_eq := by
    rw [toList_extend h.consistent, h.toList_eq,
      eraseDups_append_eraseDups]

/- A change keeps what it offers. -/
theorem Keeps.change
    {s : NodeSet}
    {ns : List Node}
    (h : s.Keeps ns)
    (c : Change) :
    (s.change c).Keeps (offer ns c) := by
  cases c with
  | insert n => exact h.extend [n]
  | extend ms => exact h.extend ms
  | ofList ms => exact Keeps.empty.extend ms

------------------------------------------------------------
-- All Changes
------------------------------------------------------------

/- So do all changes together. -/
theorem Keeps.foldl_change
    {s : NodeSet}
    {ns : List Node}
    (h : s.Keeps ns)
    (changes : List Change) :
    (changes.foldl NodeSet.change s).Keeps (changes.foldl offer ns) := by
  induction changes generalizing s ns with
  | nil => exact h
  | cons c changes ih => exact ih (h.change c)

theorem keeps_after (changes : List Change) :
    (after changes).Keeps (offered changes) :=
  Keeps.empty.foldl_change changes

/- A node is new if it has not been offered before. -/
theorem Keeps.insertNew_iff
    {s : NodeSet}
    {ns : List Node}
    (h : s.Keeps ns)
    (n : Node) :
    (s.insertNew n).1 = true ↔ n ∉ ns := by
  have hContains : s.index.contains n = true ↔ n ∈ ns := by
    rw [← List.mem_eraseDups, ← h.toList_eq]
    exact h.consistent.contains_iff n
  rw [← hContains, insertNew]
  by_cases hOld : s.index.contains n = true
  · simp [hOld]
  · simp [hOld]

/-
  After any changes the array has no node twice, and the index
  has exactly its nodes.  The array holds the nodes that have
  been offered, in the order in which each came first.  A node
  is told to be new if it was not offered before, and whatever
  else is asked of the set is answered by that list.
-/
theorem changes_keep_first_offers (changes : List Change) :
    ((after changes).nodes.toList.Nodup ∧
      ∀ n, n ∈ (after changes).index ↔ n ∈ (after changes).nodes) ∧
      ((after changes).nodes.toList = (offered changes).eraseDups ∧
        (after changes).nodes.toList.Pairwise fun m n =>
          (offered changes).idxOf m < (offered changes).idxOf n) ∧
      (∀ n, ((after changes).insertNew n).1 = true ↔
        n ∉ offered changes) ∧
      (∀ n, (after changes).contains n = true ↔ n ∈ offered changes) ∧
      (after changes).size = (offered changes).eraseDups.length ∧
      ((after changes).isEmpty = true ↔ offered changes = []) ∧
      (after changes).toList = (offered changes).eraseDups := by
  have hKeeps := keeps_after changes
  have hList : (after changes).nodes.toList = (offered changes).eraseDups :=
    hKeeps.toList_eq
  have hContains :
      ∀ n, (after changes).contains n = true ↔
        n ∈ (after changes).nodes.toList :=
    hKeeps.consistent.contains_iff
  refine ⟨⟨hKeeps.consistent.nodup, ?_⟩, ⟨hList, ?_⟩,
    hKeeps.insertNew_iff, ?_, ?_, ?_, hKeeps.toList_eq⟩
  · intro n
    rw [← Std.HashSet.contains_iff_mem, ← Array.mem_toList_iff]
    exact hContains n
  · rw [hList]
    exact pairwise_idxOf_eraseDups _
  · intro n
    rw [hContains, hList, List.mem_eraseDups]
  · rw [size, ← Array.length_toList, hList]
  · rw [isEmpty, Array.isEmpty_iff, ← Array.toList_eq_nil_iff, hList]
    constructor
    · intro hNone
      rw [List.eq_nil_iff_forall_not_mem] at hNone ⊢
      exact fun n hMem => hNone n (List.mem_eraseDups.2 hMem)
    · intro hNone
      rw [hNone]
      rfl

end TreeQuery.NodeSet
