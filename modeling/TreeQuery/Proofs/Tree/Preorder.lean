import Mathlib.Data.List.Basic
import TreeQuery.Tree.Walk

/-
  Pre-order: a node, then everything below it, child by child.

  A walk keeps a stack of nodes to visit.  What it visits is
  the concatenation of the pre-orders of the stacked nodes,
  and pre-order is document order.  Leaving nodes out of the
  walk leaves the nodes out that are reached through them.

  Key definitions include:
    * `Tree.preorder`
    * `Tree.visitEach`
    * `Tree.Leads`
    * `Node.Precedes`

  Main statements:
    * `Tree.walk_eq_visitEach`
    * `Tree.visitEach_stop`
    * `Tree.anyElementBelow_eq_any`
    * `Tree.pairwise_precedes_preorder`
    * `Tree.mem_preorder_iff`
    * `Tree.preorder_eq_filter`
-/

namespace TreeQuery

------------------------------------------------------------
-- Children
------------------------------------------------------------

namespace Tree

/- A child adds one position to the path of its parent. -/
theorem mem_children_iff
    {t : Tree}
    {n c : Node} :
    c ∈ t.children n ↔
      ∃ steps s i,
        n = .path steps ∧
          t.subtree? steps = some s ∧
          i < s.content.length ∧
          c = .path (i :: steps) := by
  cases n with
  | attr owner index => simp [children]
  | path steps =>
      cases hSubtree : t.subtree? steps with
      | none => simp [children, hSubtree]
      | some s =>
          simp only [children, hSubtree, List.mem_map, Prod.exists,
            List.mem_zipIdx_iff_getElem?, Node.path.injEq]
          constructor
          · rintro ⟨child, i, hGet, rfl⟩
            have hBound := (List.getElem?_eq_some_iff.1 hGet).1
            exact ⟨steps, s, i, rfl, hSubtree, hBound, rfl⟩
          · rintro ⟨_, s', i, rfl, hSome, hBound, rfl⟩
            rw [hSubtree] at hSome
            cases hSome
            exact ⟨s.content[i], i, by simp [hBound], rfl⟩

/- The children stand in the order of their positions. -/
theorem children_eq_map_range
    (t : Tree)
    (steps : List Nat) :
    ∃ k,
      t.children (.path steps) =
        (List.range k).map fun i => .path (i :: steps) := by
  cases hSubtree : t.subtree? steps with
  | none => exact ⟨0, by simp [children, hSubtree]⟩
  | some s =>
      refine ⟨s.content.length, ?_⟩
      have hPositions :
          s.content.zipIdx.map Prod.snd =
            List.range s.content.length := by
        simp [List.range_eq_range']
      rw [← hPositions, List.map_map]
      simp [children, hSubtree, Function.comp_def]

/- A child weighs less than its parent. -/
theorem weight_lt_of_mem_children
    {t : Tree}
    {n c : Node}
    (h : c ∈ t.children n) :
    t.weight c < t.weight n := by
  have hTotal := t.pending_children_lt n
  rcases List.append_of_mem h with ⟨before, after, hSplit⟩
  rw [hSplit, pending_append, pending] at hTotal
  omega

/-
  What holds of a node whenever it holds of its children
  holds of all nodes.
-/
theorem node_induction
    (t : Tree)
    {motive : Node → Prop}
    (step : ∀ n, (∀ c ∈ t.children n, motive c) → motive n)
    (n : Node) :
    motive n :=
  step n fun c _ => node_induction t step c
termination_by t.weight n
decreasing_by exact weight_lt_of_mem_children ‹_›

------------------------------------------------------------
-- Pre-order
------------------------------------------------------------

/- Leaving nodes out is giving nothing for them. -/
private theorem flatMap_filter_eq
    (p : Node → Bool)
    (f : Node → List Node)
    (ns : List Node) :
    (ns.filter p).flatMap f =
      ns.flatMap fun n => if p n then f n else [] := by
  induction ns with
  | nil => rfl
  | cons n ns ih =>
      cases hKept : p n with
      | true => simp [hKept, ih]
      | false => simp [hKept, ih]

/- The node and the followed nodes below it, parents first. -/
def preorder (t : Tree) (follow : Node → Bool) (n : Node) : List Node :=
  n :: (t.children n).attach.flatMap fun ⟨c, _⟩ =>
    if follow c then preorder t follow c else []
termination_by t.weight n
decreasing_by exact weight_lt_of_mem_children ‹_›

/- The followed children come one after the other. -/
theorem preorder_eq
    (t : Tree)
    (follow : Node → Bool)
    (n : Node) :
    t.preorder follow n =
      n :: ((t.children n).filter follow).flatMap
        (t.preorder follow) := by
  rw [preorder, List.flatMap_subtype (g := fun c =>
    if follow c then t.preorder follow c else []) (by simp)]
  rw [List.unattach_attach, flatMap_filter_eq]

------------------------------------------------------------
-- Walks
------------------------------------------------------------

/- Visit the nodes of a list until the visitor ends. -/
def visitEach
    {σ : Type}
    (visit : σ → Node → ForInStep σ)
    (state : σ) : List Node → σ
| [] => state
| n :: ns =>
    match visit state n with
    | .done state => state
    | .yield state => visitEach visit state ns

/- A walk visits the pre-orders of the stacked nodes. -/
theorem walk_eq_visitEach
    {σ : Type}
    (t : Tree)
    (follow : Node → Bool)
    (visit : σ → Node → ForInStep σ)
    (state : σ)
    (stack : List Node) :
    t.walk follow visit state stack =
      visitEach visit state
        (stack.flatMap (t.preorder follow)) := by
  fun_induction walk t follow visit state stack with
  | case1 => rfl
  | case2 state n stack ended hVisit =>
      simp [preorder_eq, visitEach, hVisit]
  | case3 state n stack next hVisit ih =>
      rw [ih]
      simp [preorder_eq t follow n, visitEach, hVisit]

/- A visitor that never ends folds over the list. -/
theorem visitEach_yield
    {σ : Type}
    (f : σ → Node → σ)
    (state : σ)
    (ns : List Node) :
    visitEach (fun s n => .yield (f s n)) state ns =
      ns.foldl f state := by
  induction ns generalizing state with
  | nil => rfl
  | cons n ns ih => simp [visitEach, ih]

/-
  A visitor that ends at the first node with a property finds
  that node, and keeps its state if there is none.
-/
theorem visitEach_stop
    {σ : Type}
    (p : Node → Bool)
    (found : Node → σ)
    (missing : σ)
    (ns : List Node) :
    visitEach
        (fun _ n => if p n then .done (found n) else .yield missing)
        missing ns =
      ((ns.find? p).map found).getD missing := by
  induction ns with
  | nil => rfl
  | cons n ns ih =>
      rw [visitEach, List.find?_cons]
      cases hHere : p n with
      | true => simp
      | false => simpa using ih

/- So it tells whether there is such a node. -/
theorem visitEach_find
    (p : Node → Bool)
    (ns : List Node) :
    visitEach
        (fun _ n => if p n then .done true else .yield false) false ns =
      ns.any p := by
  rw [visitEach_stop p fun _ => true, ← List.isSome_find?]
  cases ns.find? p with
  | none => rfl
  | some n => rfl

/- Some element below has a property if one in the pre-orders does. -/
theorem anyElementBelow_eq_any
    (t : Tree)
    (n : Node)
    (p : Node → Bool) :
    t.anyElementBelow n p =
      ((t.elementChildren n).flatMap
        (t.preorder t.isElement)).any p := by
  rw [anyElementBelow, walk_eq_visitEach, visitEach_find]

/- All nodes below a node are its pre-order. -/
theorem descendantsOrSelf_eq_preorder
    (t : Tree)
    (n : Node) :
    t.descendantsOrSelf n = t.preorder (fun _ => true) n := by
  rw [descendantsOrSelf, walk_eq_visitEach,
    visitEach_yield fun found m => found ++ [m]]
  have hCollects :
      ∀ (ns found : List Node),
        ns.foldl (fun found m => found ++ [m]) found =
          found ++ ns := by
    intro ns
    induction ns with
    | nil => simp
    | cons m ns ih => simp [ih]
  simp [hCollects]

------------------------------------------------------------
-- Reachable Nodes
------------------------------------------------------------

/-
  The second node is reached from the first one by going to
  followed children only.
-/
inductive Leads (t : Tree) (follow : Node → Bool) : Node → Node → Prop
| here (n : Node) : Leads t follow n n
| through {n c m : Node}
    (hChild : c ∈ t.children n)
    (hFollow : follow c = true)
    (hRest : Leads t follow c m) : Leads t follow n m

/- The pre-order of a node consists of the nodes it leads to. -/
theorem mem_preorder_iff
    {t : Tree}
    {follow : Node → Bool}
    {n m : Node} :
    m ∈ t.preorder follow n ↔ t.Leads follow n m := by
  constructor
  · induction n using t.node_induction with
    | step n ih =>
        intro hMem
        rw [preorder_eq, List.mem_cons, List.mem_flatMap] at hMem
        rcases hMem with rfl | ⟨c, hChild, hMem⟩
        · exact .here m
        · rw [List.mem_filter] at hChild
          exact .through hChild.1 hChild.2 (ih c hChild.1 hMem)
  · intro hLeads
    induction hLeads with
    | here n =>
        rw [preorder_eq]
        exact List.mem_cons_self
    | through hChild hFollow _ ih =>
        rw [preorder_eq, List.mem_cons, List.mem_flatMap]
        exact .inr ⟨_, List.mem_filter.2 ⟨hChild, hFollow⟩, ih⟩

/- The path of a node below goes through the node above. -/
theorem Leads.exists_path
    {t : Tree}
    {follow : Node → Bool}
    {steps : List Nat}
    {m : Node}
    (h : t.Leads follow (.path steps) m) :
    ∃ further, m = .path (further ++ steps) := by
  generalize hStart : Node.path steps = n at h
  induction h generalizing steps with
  | here n => exact ⟨[], hStart.symm⟩
  | through hChild _ _ ih =>
      rcases mem_children_iff.1 hChild with ⟨above, s, i, hPath, _, _, rfl⟩
      rw [← hStart] at hPath
      cases hPath
      rcases ih rfl with ⟨further, rfl⟩
      exact ⟨further ++ [i], by simp⟩

/- A node is below one child of a node at most. -/
theorem Leads.child_unique
    {t : Tree}
    {follow follow' : Node → Bool}
    {n c d m : Node}
    (hc : c ∈ t.children n)
    (hd : d ∈ t.children n)
    (hLeft : t.Leads follow c m)
    (hRight : t.Leads follow' d m) :
    c = d := by
  rcases mem_children_iff.1 hc with ⟨steps, _, i, rfl, _, _, rfl⟩
  rcases mem_children_iff.1 hd with ⟨steps', _, j, hPath, _, _, rfl⟩
  cases hPath
  rcases hLeft.exists_path with ⟨xs, rfl⟩
  rcases hRight.exists_path with ⟨ys, hSame⟩
  have hTails : i :: steps = j :: steps :=
    (List.append_inj' (Node.path.inj hSame) (by simp)).2
  rw [hTails]

/- A node is not below its own children. -/
theorem Leads.not_child_to_self
    {t : Tree}
    {follow : Node → Bool}
    {n c : Node}
    (hChild : c ∈ t.children n) :
    ¬ t.Leads follow c n := by
  intro hLeads
  rcases mem_children_iff.1 hChild with ⟨steps, _, i, rfl, _, _, rfl⟩
  rcases hLeads.exists_path with ⟨further, hPath⟩
  have hLength := congrArg List.length (Node.path.inj hPath)
  simp at hLength
  omega

/-
  Of the nodes below a child, those are reached from the
  parent that are reached from the child, if it is followed.
-/
theorem leads_iff_of_below_child
    {t : Tree}
    {follow : Node → Bool}
    {n c m : Node}
    (hChild : c ∈ t.children n)
    (hBelow : t.Leads (fun _ => true) c m) :
    t.Leads follow n m ↔ follow c = true ∧ t.Leads follow c m := by
  constructor
  · intro hLeads
    cases hLeads with
    | here => exact absurd hBelow (Leads.not_child_to_self hChild)
    | through hOther hFollow hRest =>
        cases Leads.child_unique hChild hOther hBelow hRest
        exact ⟨hFollow, hRest⟩
  · rintro ⟨hFollow, hRest⟩
    exact .through hChild hFollow hRest

open Classical in
/-
  Following some children only keeps, of all the nodes below,
  those that are reached, in their order.
-/
theorem preorder_eq_filter
    (t : Tree)
    (follow : Node → Bool)
    (n : Node) :
    t.preorder follow n =
      (t.preorder (fun _ => true) n).filter
        fun m => t.Leads follow n m := by
  induction n using t.node_induction with
  | step n ih =>
      rw [preorder_eq t follow, preorder_eq t fun _ => true]
      rw [List.filter_cons_of_pos (by simpa using Leads.here n)]
      rw [List.filter_true, List.filter_flatMap, flatMap_filter_eq]
      congr 1
      apply List.flatMap_congr
      intro c hChild
      have hBelow :
          ∀ m ∈ t.preorder (fun _ => true) c,
            decide (t.Leads follow n m) =
              (follow c && decide (t.Leads follow c m)) := by
        intro m hMem
        simp [leads_iff_of_below_child hChild (mem_preorder_iff.1 hMem)]
      rw [List.filter_congr hBelow]
      cases hFollow : follow c with
      | true => simpa using ih c hChild
      | false => simp

end Tree

------------------------------------------------------------
-- Document Order
------------------------------------------------------------

/-
  The first node comes before the second one in the document:
  it stands above, or before where their ways part.
-/
def Node.Precedes : Node → Node → Prop
| .path xs, .path ys => xs.reverse < ys.reverse
| _, _ => False

/- No node comes before itself. -/
theorem Node.Precedes.ne
    {n m : Node}
    (h : n.Precedes m) :
    n ≠ m := by
  rintro rfl
  cases n with
  | path steps => exact List.lt_irrefl _ h
  | attr owner index => exact h

/- Of two nodes one at most comes before the other. -/
theorem Node.Precedes.asymm
    {n m : Node}
    (h : n.Precedes m) :
    ¬ m.Precedes n := by
  intro hBack
  cases n with
  | attr owner index => exact h
  | path steps =>
      cases m with
      | attr owner index => exact h
      | path steps' => exact List.lt_asymm h hBack

namespace Tree

/- A node comes before the nodes below its children. -/
theorem precedes_of_below_child
    {t : Tree}
    {follow : Node → Bool}
    {n c m : Node}
    (hChild : c ∈ t.children n)
    (hBelow : t.Leads follow c m) :
    n.Precedes m := by
  rcases mem_children_iff.1 hChild with ⟨steps, _, i, rfl, _, _, rfl⟩
  rcases hBelow.exists_path with ⟨further, rfl⟩
  have hLess :
      steps.reverse ++ [] < steps.reverse ++ (i :: further.reverse) :=
    List.append_left_lt (List.nil_lt_cons ..)
  simpa [Node.Precedes] using hLess

/- What is below a child comes before what is below a later one. -/
theorem precedes_of_below_siblings
    {t : Tree}
    {follow : Node → Bool}
    {steps : List Nat}
    {i j : Nat}
    {m k : Node}
    (hLess : i < j)
    (hFirst : t.Leads follow (.path (i :: steps)) m)
    (hSecond : t.Leads follow (.path (j :: steps)) k) :
    m.Precedes k := by
  rcases hFirst.exists_path with ⟨xs, rfl⟩
  rcases hSecond.exists_path with ⟨ys, rfl⟩
  have hParts :
      steps.reverse ++ (i :: xs.reverse) <
        steps.reverse ++ (j :: ys.reverse) :=
    List.append_left_lt (List.cons_lt_cons_iff.2 (.inl hLess))
  simpa [Node.Precedes] using hParts

/- A pre-order is in document order. -/
theorem pairwise_precedes_preorder
    (t : Tree)
    (follow : Node → Bool)
    (n : Node) :
    (t.preorder follow n).Pairwise Node.Precedes := by
  induction n using t.node_induction with
  | step n ih =>
      rw [preorder_eq, List.pairwise_cons, List.pairwise_flatMap]
      refine ⟨?_, ?_, ?_⟩
      · intro m hMem
        rcases List.mem_flatMap.1 hMem with ⟨c, hChild, hBelow⟩
        exact precedes_of_below_child (List.mem_filter.1 hChild).1
          (mem_preorder_iff.1 hBelow)
      · intro c hChild
        exact ih c (List.mem_filter.1 hChild).1
      · apply List.Pairwise.filter
        cases n with
        | attr owner index => simp [children]
        | path steps =>
            rcases t.children_eq_map_range steps with ⟨k, hChildren⟩
            rw [hChildren, List.pairwise_map]
            refine List.pairwise_lt_range.imp ?_
            intro i j hLess m hm k hk
            exact precedes_of_below_siblings hLess
              (mem_preorder_iff.1 hm) (mem_preorder_iff.1 hk)

/- No node comes twice in a pre-order. -/
theorem nodup_preorder
    (t : Tree)
    (follow : Node → Bool)
    (n : Node) :
    (t.preorder follow n).Nodup :=
  (t.pairwise_precedes_preorder follow n).imp Node.Precedes.ne

end Tree

end TreeQuery
