import Mathlib.Data.List.Basic
import TreeQuery.Proofs.Reading.Chain
import TreeQuery.Proofs.Reading.Extend
import TreeQuery.Proofs.Text.Blank

/-
  Chains whose text goes on.

  What stands in a chain before its last compound is read as
  it was where the text goes on.  If no part begins there, the
  last compound is so too, and the chain goes on from it.

  Key definitions include:
    * `BeginsNoPart`
    * `EndsCompound`

  Main statements:
    * `Scan.value?_compound_extend`
    * `Scan.value?_link_extend`
    * `Scan.value?_chain_extend`
    * `Scan.value?_branch_extend`
    * `Scan.value?_branch_comma`
-/

namespace TreeQuery

variable {E : Engine}

open Cursor (Extended)

------------------------------------------------------------
-- Blanks
------------------------------------------------------------

section Blanks

variable
  {more : List Char}
  {Goes : List Char → List Char → Prop}
  (hGoes : Continues more Goes)

include hGoes

/- Blanks before something else are left behind in both texts. -/
theorem Continues.dropWhile
    {cs cs' : List Char}
    (h : Goes cs cs')
    (hSome : cs.dropWhile Text.isBlank ≠ []) :
    Goes (cs.dropWhile Text.isBlank)
      (cs.dropWhile Text.isBlank ++ more) := by
  induction cs generalizing cs' with
  | nil => exact absurd rfl hSome
  | cons x xs ih =>
      by_cases hBlank : Text.isBlank x = true
      · have hSlash : x ≠ '\\' := by
          rintro rfl
          exact absurd hBlank (by decide)
        rw [List.dropWhile_cons_of_pos hBlank] at hSome ⊢
        exact ih (hGoes.tail h hSlash) hSome
      · rw [List.dropWhile_cons_of_neg hBlank]
        rwa [hGoes.cons h] at h

/- Blanks are skipped as before if something is left behind them. -/
theorem Continues.skipBlanks
    {c c' : Cursor}
    (h : Extended Goes c c')
    (hSome : c.skipBlanks.rest ≠ []) :
    Extended Goes c.skipBlanks c'.skipBlanks ∧
      c'.atBlank = c.atBlank := by
  have hInside : c.rest ≠ [] := by
    intro hNil
    rw [Cursor.skipBlanks, Cursor.dropWhile, hNil] at hSome
    exact hSome rfl
  have hLeft : c.rest.dropWhile Text.isBlank ≠ [] := hSome
  have hDrop :
      (c.rest ++ more).dropWhile Text.isBlank =
        c.rest.dropWhile Text.isBlank ++ more := by
    rw [List.dropWhile_append,
      if_neg fun hNil => hLeft (List.isEmpty_iff.1 hNil)]
  have hMove := h.moveTo hGoes.cons (List.dropWhile_suffix Text.isBlank)
    (hGoes.dropWhile h.text hLeft)
  rw [h.eq_of_ne_nil hGoes.cons hInside, ← hDrop] at hMove
  rw [h.eq_of_ne_nil hGoes.cons hInside]
  refine ⟨hMove, ?_⟩
  rcases c with ⟨o, rest⟩
  cases rest with
  | nil => exact absurd rfl hInside
  | cons x xs => rfl

/- At the end of the text the blanks of what comes are skipped. -/
theorem Continues.skipBlanks_atEnd
    {c c' : Cursor}
    (h : Extended Goes c c')
    (hEnd : c.skipBlanks.rest = []) :
    c'.skipBlanks.rest = more.dropWhile Text.isBlank := by
  have hNil : c.rest.dropWhile Text.isBlank = [] := hEnd
  change c'.rest.dropWhile Text.isBlank = _
  by_cases hInside : c.rest = []
  · have hText := h.text
    rw [hInside] at hText
    rcases hGoes.atEnd hText with ⟨blanks, hSplit, hBlanks⟩
    rw [hSplit, List.dropWhile_append_of_pos hBlanks]
  · rw [h.eq_of_ne_nil hGoes.cons hInside, List.dropWhile_append, hNil]
    rfl

end Blanks

/- Whatever blanks are taken from it, the text begins no part. -/
def BeginsNoPart (more : List Char) : Prop :=
  ∀ after, DropsBlanks more after →
    after.head?.bind (Scan.partStart? false) = none

/- Where the text ends, no part begins in what comes then. -/
def EndsCompound (Goes : List Char → List Char → Prop) : Prop :=
  ∀ after, Goes [] after →
    after.head?.bind (Scan.partStart? false) = none

theorem BeginsNoPart.endsCompound
    {more : List Char}
    (h : BeginsNoPart more) :
    EndsCompound (GoesOn more) := by
  intro after hAfter
  cases hAfter with
  | inside hSome => exact absurd rfl hSome
  | atEnd hDrops => exact h after hDrops

namespace Scan

variable {nested : Cursor → Except Fault (Selector E)}
variable {more : List Char} {Goes : List Char → List Char → Prop}

------------------------------------------------------------
-- Ends
------------------------------------------------------------

theorem Advances.suffix
    {α : Type}
    {act : Scan α}
    (hAct : Advances act)
    {c d : Cursor}
    {a : α}
    (h : value? act c = some (a, d)) :
    d.rest <:+ c.rest := by
  have hReach := hAct c
  rw [value?_eq_some_iff.1 h] at hReach
  rcases hReach with ⟨text, hRest, _⟩
  exact ⟨text, hRest.symm⟩

/- Reading parts ends where no part begins. -/
theorem partStart?_of_part?
    {parts : List (Selector E)}
    {c d : Cursor}
    (h : part? nested parts c = .ok none d) :
    d = c ∧ c.rest.head?.bind (partStart? parts.isEmpty) = none := by
  have hNone := value?_eq_some_iff.2 h
  rw [value?_part?] at hNone
  split at hNone
  · simp at hNone
  · next hStart =>
      simp only [Option.some.injEq, Prod.mk.injEq] at hNone
      exact ⟨hNone.2.symm, hStart⟩

theorem partStart?_of_partsFrom
    {before parts : List (Selector E)}
    {c d : Cursor}
    (h : partsFrom nested before c = .ok parts d) :
    d.rest.head?.bind (partStart? parts.isEmpty) = none := by
  fun_induction partsFrom nested before c with
  | case1 before c s e hPart _ ih => exact ih h
  | case2 before c e hPart =>
      rcases partStart?_of_part? hPart with ⟨rfl, hStart⟩
      cases h
      exact hStart
  | case3 before c fault e hPart => simp at h

theorem link_of_next?
    {c d : Cursor}
    (h : value? (next? nested) c = some (none, d)) :
    value? link c = some (.finished, d) := by
  rcases value?_bind_eq_some_iff.1 h with ⟨step, e, hLink, hRest⟩
  cases step with
  | finished =>
      cases hRest
      exact hLink
  | related combinator =>
      rcases value?_bind_eq_some_iff.1 hRest with ⟨s, f, _, hPair⟩
      simp at hPair

theorem link_of_next?_some
    {combinator : Combinator}
    {right : Selector E}
    {c d : Cursor}
    (h : value? (next? nested) c = some (some (combinator, right), d)) :
    ∃ e, value? link c = some (.related combinator, e) ∧
      value? (compound nested) e = some (right, d) := by
  rcases value?_bind_eq_some_iff.1 h with ⟨step, e, hLink, hRest⟩
  cases step with
  | finished => simp at hRest
  | related combinator' =>
      rcases value?_bind_eq_some_iff.1 hRest with ⟨s, f, hRead, hPair⟩
      cases hPair
      exact ⟨e, hLink, hRead⟩

theorem rest_of_chainFrom
    {left s : Selector E}
    {c d : Cursor}
    (h : chainFrom nested left c = .ok s d) :
    d.rest = [] ∨ ∃ xs, d.rest = ',' :: xs := by
  fun_induction chainFrom nested left c with
  | case1 left c combinator right e hNext _ ih => exact ih h
  | case2 left c e hNext =>
      cases h
      have hLink := link_of_next? (value?_eq_some_iff.2 hNext)
      exact (value?_link_finished_iff.1 hLink).2
  | case3 left c fault e hNext => simp at h

theorem rest_of_chain
    {s : Selector E}
    {c d : Cursor}
    (h : value? (chain nested) c = some (s, d)) :
    d.rest = [] ∨ ∃ xs, d.rest = ',' :: xs := by
  rw [value?_chain] at h
  by_cases hSign : (c.rest.head?.bind combinator?).isSome = true
  · rw [if_pos hSign] at h
    exact rest_of_chainFrom (value?_eq_some_iff.1 h)
  · rw [if_neg hSign, Option.bind_eq_some_iff] at h
    rcases h with ⟨⟨first, e⟩, _, hRest⟩
    exact rest_of_chainFrom (value?_eq_some_iff.1 hRest)

/- A branch is a chain with blanks before and perhaps a comma behind. -/
theorem value?_branch_eq (c : Cursor) :
    value? (branch nested) c =
      if c.skipBlanks.rest.head?.all (· == ',') then none
      else
        (value? (chain nested) c.skipBlanks).bind fun (s, d) =>
          (value? (chomp ",") d).map fun (comma, e) => ((s, comma), e) := by
  rw [branch, value?_bind, value?_skipBlanks, Option.bind_some]
  simp only [value?_bind, value?_peek?, Option.bind_some]
  by_cases hNone : c.skipBlanks.rest.head?.all (· == ',') = true
  · simp [hNone]
  · simp only [hNone, Bool.false_eq_true, ↓reduceIte, value?_bind,
      value?_pure]
    congr 1
    funext read
    cases value? (chomp ",") read.2 with
    | none => rfl
    | some comma => rfl

/- Every branch that is read is one more. -/
theorem length_lt_of_branchesFrom
    {before branches : List (Selector E)}
    {c d : Cursor}
    (h : branchesFrom nested before c = .ok branches d) :
    before.length < branches.length := by
  fun_induction branchesFrom nested before c with
  | case1 before c s e hBranch _ ih =>
      have hLess := ih h
      simp only [List.length_append, List.length_singleton] at hLess
      omega
  | case2 before c s e hBranch =>
      cases h
      simp
  | case3 before c fault e hBranch => simp at h

/- Where no comma follows, a chain ends with the text. -/
theorem rest_of_no_comma
    {c d : Cursor}
    (hEnd : c.rest = [] ∨ ∃ xs, c.rest = ',' :: xs)
    (hComma : value? (chomp ",") c = some (false, d)) :
    c.rest = [] := by
  rcases hEnd with hNil | ⟨xs, hCons⟩
  · exact hNil
  · rcases c with ⟨o, rest⟩
    cases hCons
    simp [value?_chomp_comma] at hComma

/- A branch that is read has a chain behind its blanks. -/
theorem chain_of_branch
    {s : Selector E}
    {goesOn : Bool}
    {c d : Cursor}
    (h : value? (branch nested) c = some ((s, goesOn), d)) :
    ∃ f, c.skipBlanks.rest.head?.all (· == ',') = false ∧
      value? (chain nested) c.skipBlanks = some (s, f) ∧
        value? (chomp ",") f = some (goesOn, d) := by
  rw [value?_branch_eq] at h
  by_cases hNone : c.skipBlanks.rest.head?.all (· == ',') = true
  · simp [hNone] at h
  · rw [if_neg hNone, Option.bind_eq_some_iff] at h
    rcases h with ⟨⟨t, f⟩, hChain, hLast⟩
    rw [Option.map_eq_some_iff] at hLast
    rcases hLast with ⟨⟨comma, g⟩, hComma, hPair⟩
    cases hPair
    exact ⟨f, Bool.eq_false_iff.2 hNone, hChain, hComma⟩

/- Branches are read to the end of the text. -/
theorem rest_of_branchesFrom
    {before branches : List (Selector E)}
    {c d : Cursor}
    (h : branchesFrom nested before c = .ok branches d) :
    d.rest = [] := by
  fun_induction branchesFrom nested before c with
  | case1 before c s e hBranch _ ih => exact ih h
  | case2 before c s e hBranch =>
      cases h
      rcases chain_of_branch (value?_eq_some_iff.2 hBranch) with
        ⟨f, _, hChain, hComma⟩
      have hEnd := rest_of_no_comma (rest_of_chain hChain) hComma
      rw [value?_chomp_comma_end hEnd] at hComma
      cases hComma
      exact hEnd
  | case3 before c fault e hBranch => simp at h

theorem rest_of_group
    {c d : Cursor}
    {s : Selector E}
    (h : value? (group nested) c = some (s, d)) :
    d.rest = [] := by
  rw [value?_group, Option.map_eq_some_iff] at h
  rcases h with ⟨⟨branches, e⟩, hRead, hPair⟩
  cases hPair
  exact rest_of_branchesFrom (value?_eq_some_iff.1 hRead)

/- What is no list of branches is read as a single one. -/
theorem value?_branch_of_group
    {s : Selector E}
    {c d : Cursor}
    (h : value? (group nested) c = some (s, d))
    (hSingle : ∀ branches, s ≠ .group branches) :
    value? (branch nested) c = some ((s, false), d) := by
  rw [value?_group, Option.map_eq_some_iff] at h
  rcases h with ⟨⟨branches, e⟩, hRead, hPair⟩
  simp only [Prod.mk.injEq] at hPair
  rcases hPair with ⟨rfl, rfl⟩
  rw [value?_branchesFrom, Option.bind_eq_some_iff] at hRead
  rcases hRead with ⟨⟨⟨first, goesOn⟩, f⟩, hBranch, hRest⟩
  cases goesOn with
  | true =>
      have hLength := length_lt_of_branchesFrom (value?_eq_some_iff.1 hRest)
      cases branches with
      | nil => simp at hLength
      | cons branch branches =>
          cases branches with
          | nil => simp at hLength
          | cons next branches => exact absurd rfl (hSingle _)
  | false =>
      simp only [Option.some.injEq, Prod.mk.injEq] at hRest
      rcases hRest with ⟨rfl, rfl⟩
      exact hBranch

------------------------------------------------------------
-- Compounds and Links
------------------------------------------------------------

section Ends

variable (hGoes : Continues more Goes)

include hGoes

/- Where the text goes on, parts are read behind those of before. -/
theorem value?_partsFrom_extend
    {before parts : List (Selector E)}
    {c c' d : Cursor}
    (hExt : Extended Goes c c')
    (h : partsFrom nested before c = .ok parts d) :
    ∃ d', Extended Goes d d' ∧
      value? (partsFrom nested before) c' =
        value? (partsFrom nested parts) d' := by
  fun_induction partsFrom nested before c generalizing c' with
  | case1 before c s e hPart _ ih =>
      rcases value?_part?_extend hGoes hExt (value?_eq_some_iff.2 hPart)
        with ⟨e', hExt', hPart'⟩
      rcases ih hExt' h with ⟨d', hExt'', hRest⟩
      refine ⟨d', hExt'', ?_⟩
      rw [value?_partsFrom, hPart']
      exact hRest
  | case2 before c e hPart =>
      rcases partStart?_of_part? hPart with ⟨rfl, _⟩
      cases h
      exact ⟨c', hExt, rfl⟩
  | case3 before c fault e hPart => simp at h

/- What a compound was read as is made up of its parts. -/
theorem value?_compound_extend
    {c c' d : Cursor}
    {s : Selector E}
    (hExt : Extended Goes c c')
    (h : value? (compound nested) c = some (s, d)) :
    ∃ parts d', Extended Goes d d' ∧ parts ≠ [] ∧ s = .ofParts parts ∧
      partsFrom nested [] c = .ok parts d ∧
        value? (compound nested) c' =
          (value? (partsFrom nested parts) d').bind
            fun (parts, e) =>
              if parts.isEmpty then none else some (.ofParts parts, e) := by
  rw [value?_compound, Option.bind_eq_some_iff] at h
  rcases h with ⟨⟨parts, e⟩, hRead, hMake⟩
  by_cases hEmpty : parts.isEmpty = true
  · simp [hEmpty] at hMake
  · simp only [hEmpty, Bool.false_eq_true, ↓reduceIte, Option.some.injEq,
      Prod.mk.injEq] at hMake
    rcases hMake with ⟨rfl, rfl⟩
    have hParts : partsFrom nested [] c = .ok parts e :=
      value?_eq_some_iff.1 hRead
    rcases value?_partsFrom_extend hGoes hExt hParts with
      ⟨d', hExt', hRest⟩
    refine ⟨parts, d', hExt', by simpa using hEmpty, rfl, hParts, ?_⟩
    rw [value?_compound, hRest]

/- A compound is read as before if no part begins behind it. -/
theorem value?_compound_stop
    {c c' d : Cursor}
    {s : Selector E}
    (hExt : Extended Goes c c')
    (h : value? (compound nested) c = some (s, d))
    (hStop : d.rest = [] → EndsCompound Goes) :
    ∃ d', Extended Goes d d' ∧
      value? (compound nested) c' = some (s, d') := by
  rcases value?_compound_extend hGoes hExt h with
    ⟨parts, d', hExt', hSome, rfl, hParts, hRead⟩
  have hFirst : parts.isEmpty = false :=
    List.isEmpty_eq_false_iff.2 hSome
  have hStart : d'.rest.head?.bind (partStart? false) = none := by
    have hBefore := partStart?_of_partsFrom hParts
    rw [hFirst] at hBefore
    by_cases hEnd : d.rest = []
    · have hText := hExt'.text
      rw [hEnd] at hText
      exact hStop hEnd _ hText
    · rwa [hExt'.eq_of_ne_nil hGoes.cons hEnd,
        List.head?_append_of_ne_nil _ hEnd]
  have hNone : value? (part? nested parts) d' = some (none, d') := by
    rw [value?_part?, hFirst, hStart]
  refine ⟨d', hExt', ?_⟩
  rw [hRead, value?_partsFrom, hNone]
  simp [hSome]

/- A sign that comes next relates what comes after it as before. -/
theorem value?_link_extend
    {c c' d : Cursor}
    {combinator : Combinator}
    (hExt : Extended Goes c c')
    (h : value? link c = some (.related combinator, d)) :
    ∃ d', Extended Goes d d' ∧
      value? link c' = some (.related combinator, d') := by
  rcases value?_link_related_iff.1 h with ⟨x, xs, hCons, hComma, hNext⟩
  have hSome : c.skipBlanks.rest ≠ [] := by simp [hCons]
  rcases hGoes.skipBlanks hExt hSome with ⟨hSkip, hBlank⟩
  have hThere := hSkip.eq_of_ne_nil hGoes.cons hSome
  have hCons' : c'.skipBlanks.rest = x :: (xs ++ more) := by
    rw [hThere, hCons]
    rfl
  have hOffset : c'.skipBlanks.offset = c.skipBlanks.offset := by
    rw [hThere]
  rcases hNext with ⟨hSign, hLeft, rfl⟩ | ⟨hSign, hSpaced, rfl, rfl⟩
  · have hSlash : x ≠ '\\' := by
      rintro rfl
      simp [combinator?] at hSign
    have hHere :
        Extended Goes ⟨c.skipBlanks.offset, x :: xs⟩ c'.skipBlanks := by
      rw [← hCons]
      exact hSkip
    have hBehind :=
      hGoes.extended_tail hHere hSlash (c.skipBlanks.offset + x.utf8Size)
    have hRest := (hGoes.skipBlanks hBehind hLeft).1
    have hLeft' :
        (Cursor.skipBlanks
          ⟨c.skipBlanks.offset + x.utf8Size, xs ++ more⟩).rest ≠ [] := by
      rw [hRest.eq_of_ne_nil hGoes.cons hLeft]
      simp [hLeft]
    refine ⟨_, hRest, ?_⟩
    rw [← hOffset] at hLeft' ⊢
    exact value?_link_related_iff.2
      ⟨x, _, hCons', hComma, .inl ⟨hSign, hLeft', rfl⟩⟩
  · refine ⟨_, hSkip, ?_⟩
    exact value?_link_related_iff.2
      ⟨x, _, hCons', hComma, .inr ⟨hSign, hBlank ▸ hSpaced, rfl, rfl⟩⟩

------------------------------------------------------------
-- Chains
------------------------------------------------------------

variable (hStop : EndsCompound Goes)

include hStop

/-
  Where the text goes on, a chain goes on from what it was
  read as, and from where its last compound ended.
-/
theorem value?_chainFrom_extend
    {left s : Selector E}
    {c c' d : Cursor}
    (hExt : Extended Goes c c')
    (h : chainFrom nested left c = .ok s d) :
    ∃ e e', Extended Goes e e' ∧ value? link e = some (.finished, d) ∧
      value? (chainFrom nested left) c' =
        value? (chainFrom nested s) e' := by
  fun_induction chainFrom nested left c generalizing c' with
  | case1 left c combinator right e hNext _ ih =>
      rcases link_of_next?_some (value?_eq_some_iff.2 hNext) with
        ⟨f, hLink, hRight⟩
      rcases value?_link_extend hGoes hExt hLink with ⟨f', hExt', hLink'⟩
      rcases value?_compound_stop hGoes hExt' hRight fun _ => hStop with
        ⟨e', hExt'', hRight'⟩
      rcases ih hExt'' h with ⟨g, g', hLast, hEnd, hRead⟩
      refine ⟨g, g', hLast, hEnd, ?_⟩
      rw [value?_chainFrom, next?, value?_bind, hLink', Option.bind_some]
      simp only [value?_bind, hRight', Option.bind_some, value?_pure]
      exact hRead
  | case2 left c e hNext =>
      cases h
      have hLink := link_of_next? (value?_eq_some_iff.2 hNext)
      exact ⟨c, c', hExt, hLink, rfl⟩
  | case3 left c fault e hNext => simp at h

theorem value?_chain_extend
    {s : Selector E}
    {c c' d : Cursor}
    (hExt : Extended Goes c c')
    (h : value? (chain nested) c = some (s, d)) :
    ∃ e e', Extended Goes e e' ∧ value? link e = some (.finished, d) ∧
      value? (chain nested) c' = value? (chainFrom nested s) e' := by
  rcases c with ⟨o, rest⟩
  cases rest with
  | nil =>
      rw [value?_chain, if_neg (by simp), Option.bind_eq_some_iff] at h
      rcases h with ⟨⟨first, e⟩, hFirst, _⟩
      have hLess :=
        consumes_compound nested _ _ _ (value?_eq_some_iff.1 hFirst)
      simp at hLess
  | cons x xs =>
      cases hExt.cons hGoes.cons
      rw [value?_chain] at h ⊢
      simp only [List.head?_cons, Option.bind_some] at h ⊢
      by_cases hSign : (combinator? x).isSome = true
      · simp only [hSign, ↓reduceIte] at h ⊢
        exact value?_chainFrom_extend hGoes hStop hExt
          (value?_eq_some_iff.1 h)
      · simp only [hSign, ↓reduceIte, Bool.false_eq_true] at h ⊢
        rw [Option.bind_eq_some_iff] at h
        rcases h with ⟨⟨first, e⟩, hFirst, hRest⟩
        rcases value?_compound_stop hGoes hExt hFirst fun _ => hStop with
          ⟨e', hExt', hFirst'⟩
        rw [hFirst', Option.bind_some]
        exact value?_chainFrom_extend hGoes hStop hExt'
          (value?_eq_some_iff.1 hRest)

------------------------------------------------------------
-- Branches
------------------------------------------------------------

/- A branch begins with the same blanks, and a comma may end it. -/
omit hStop in
theorem value?_branch_start
    {s : Selector E}
    {goesOn : Bool}
    {c c' d : Cursor}
    (hExt : Extended Goes c c')
    (h : value? (branch nested) c = some ((s, goesOn), d)) :
    ∃ f, Extended Goes c.skipBlanks c'.skipBlanks ∧
      value? (chain nested) c.skipBlanks = some (s, f) ∧
        value? (chomp ",") f = some (goesOn, d) ∧
          value? (branch nested) c' =
            (value? (chain nested) c'.skipBlanks).bind fun (t, g) =>
              (value? (chomp ",") g).map fun (comma, e) =>
                ((t, comma), e) := by
  rcases chain_of_branch h with ⟨f, hNone, hChain, hComma⟩
  have hSome : c.skipBlanks.rest ≠ [] := by
    intro hNil
    simp [hNil] at hNone
  have hSkip := (hGoes.skipBlanks hExt hSome).1
  have hNone' : c'.skipBlanks.rest.head?.all (· == ',') = false := by
    rwa [hSkip.eq_of_ne_nil hGoes.cons hSome,
      List.head?_append_of_ne_nil _ hSome]
  refine ⟨f, hSkip, hChain, hComma, ?_⟩
  rw [value?_branch_eq, hNone', if_neg (by simp)]

/-
  A branch is read where the text goes on as the chain that
  goes on from it, and then perhaps a comma.
-/
theorem value?_branch_extend
    {s : Selector E}
    {goesOn : Bool}
    {c c' d : Cursor}
    (hExt : Extended Goes c c')
    (h : value? (branch nested) c = some ((s, goesOn), d)) :
    ∃ e e' f, Extended Goes e e' ∧ value? link e = some (.finished, f) ∧
      value? (chomp ",") f = some (goesOn, d) ∧
        value? (branch nested) c' =
          (value? (chainFrom nested s) e').bind fun (t, g) =>
            (value? (chomp ",") g).map fun (comma, a) =>
              ((t, comma), a) := by
  rcases value?_branch_start hGoes hExt h with
    ⟨f, hSkip, hChain, hComma, hBranch⟩
  rcases value?_chain_extend hGoes hStop hSkip hChain with
    ⟨e, e', hExt', hLink, hChain'⟩
  exact ⟨e, e', f, hExt', hLink, hComma, by rw [hBranch, hChain']⟩

/- The last branch goes on from where only blanks are left. -/
theorem value?_branch_last
    {s : Selector E}
    {c c' d : Cursor}
    (hExt : Extended Goes c c')
    (h : value? (branch nested) c = some ((s, false), d)) :
    ∃ e e', Extended Goes e e' ∧ e.skipBlanks.rest = [] ∧
      value? (branch nested) c' =
        (value? (chainFrom nested s) e').bind fun (t, f) =>
          (value? (chomp ",") f).map fun (comma, g) =>
            ((t, comma), g) := by
  rcases value?_branch_extend hGoes hStop hExt h with
    ⟨e, e', f, hExt', hLink, hComma, hBranch⟩
  rcases value?_link_finished_iff.1 hLink with ⟨rfl, hStopped⟩
  exact ⟨e, e', hExt', rest_of_no_comma hStopped hComma, hBranch⟩

/- A branch before a comma is read as before. -/
theorem value?_branch_comma
    {s : Selector E}
    {c c' d : Cursor}
    (hExt : Extended Goes c c')
    (h : value? (branch nested) c = some ((s, true), d)) :
    ∃ d', Extended Goes d d' ∧
      value? (branch nested) c' = some ((s, true), d') := by
  rcases value?_branch_extend hGoes hStop hExt h with
    ⟨e, e', f, hExt', hLink, hComma, hBranch⟩
  rcases value?_link_finished_iff.1 hLink with ⟨rfl, hNil | ⟨xs, hCons⟩⟩
  · simp [value?_chomp_comma_end hNil] at hComma
  · have hSkip := (hGoes.skipBlanks hExt' (by simp [hCons])).1
    generalize hFrom : e.skipBlanks = f at hComma hCons hSkip
    rcases f with ⟨o, rest⟩
    cases hCons
    have hLink' :
        value? link e' = some (.finished, ⟨o, ',' :: (xs ++ more)⟩) :=
      value?_link_finished_iff.2
        ⟨(hSkip.cons hGoes.cons).symm, .inr ⟨_, rfl⟩⟩
    rw [value?_chomp_comma] at hComma
    cases hComma
    refine ⟨_, hGoes.extended_tail hSkip (by decide) (o + 1), ?_⟩
    rw [hBranch, value?_chainFrom_finished hLink', Option.bind_some]
    simp only [value?_chomp_comma, Option.map_some]

end Ends

end Scan

end TreeQuery
