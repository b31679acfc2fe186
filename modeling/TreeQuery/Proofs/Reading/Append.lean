import TreeQuery.Proofs.Reading.Locality
import TreeQuery.Proofs.Reading.Shift

/-
  Queries that go on with a further part.

  A part that is written behind a query becomes a part of its
  last compound.  All that stands before it is read as it was,
  and the combinator before the compound is then put on it
  again.

  Key definitions include:
    * `Selector.after`
    * `Selector.AreParts`

  Main statements:
    * `Scan.value?_chain_append`
    * `Selector.read_append_index`
-/

namespace TreeQuery

variable {E : Engine}

namespace Selector

/- A compound, related to what stands before it, if there is anything. -/
def after : Option (Combinator × Selector E) → Selector E → Selector E
| none, s => s
| some (c, left), s => left.relate c s

/- Simple parts, one at least, can be those of a compound. -/
def AreParts (parts : List (Selector E)) : Prop :=
  parts ≠ [] ∧ ∀ part ∈ parts, part.isSimple = true

end Selector

namespace Scan

open Cursor (Extended)

variable {nested : Cursor → Except Fault (Selector E)}
variable {more : List Char}

/- A colon is no blank that could be taken from the text. -/
theorem eq_of_dropsBlanks_colon
    {after : List Char}
    (h : DropsBlanks (':' :: more) after) :
    after = ':' :: more := by
  have hDrops : DropsBlanks ([] ++ ':' :: more) after := h
  rcases hDrops.exists_of_unblank (by decide) with ⟨left, hLeft, rfl⟩
  rw [List.suffix_nil.1 hLeft, List.nil_append]

/- A colon ends tokens. -/
theorem continues_colon : Continues (':' :: more) (GoesOn (':' :: more)) :=
  continues_goesOn rfl

------------------------------------------------------------
-- Chains
------------------------------------------------------------

section Append

variable
  {make : List (Selector E) → Selector E}
  (hMore :
    ∀ before o, ∃ o',
      value? (part? nested before) ⟨o, ':' :: more⟩ =
        some (some (make before), ⟨o', []⟩))

include hMore

/- The part behind the last compound becomes a part of it. -/
theorem value?_compound_append
    {c c' d : Cursor}
    {s : Selector E}
    (hExt : Extended (GoesOn (':' :: more)) c c')
    (h : value? (compound nested) c = some (s, d))
    (hEnd : d.rest = []) :
    ∃ parts o', Selector.AreParts parts ∧ s = .ofParts parts ∧
      value? (compound nested) c' =
        some (.ofParts (parts ++ [make parts]), ⟨o', []⟩) := by
  rcases value?_compound_extend continues_colon hExt h with
    ⟨parts, d', hExt', hSome, rfl, hParts, hRead⟩
  have hShape : ∃ more, parts = [] ++ more ∧
      Selector.ArePartsAfter (fun _ => True) [] more :=
    shape_partsFrom (fun _ _ _ => trivial) hParts
  rcases hShape with ⟨_, rfl, hAfter⟩
  rcases d' with ⟨o₂, after⟩
  have hText := hExt'.text
  rw [hEnd] at hText
  cases hText with
  | inside hInside => exact absurd rfl hInside
  | atEnd hDrops =>
      cases eq_of_dropsBlanks_colon hDrops
      rcases hMore parts o₂ with ⟨o', hPart⟩
      refine ⟨parts, o', ⟨hSome, hAfter.isSimple⟩, rfl, ?_⟩
      have hEnds : endsCompound [] = true := rfl
      have hParts' :
          value? (partsFrom nested parts) ⟨o₂, ':' :: more⟩ =
            some (parts ++ [make parts], ⟨o', []⟩) := by
        rw [value?_partsFrom, hPart, Option.bind_some]
        simp only
        rw [value?_partsFrom, value?_part?_end hEnds]
        rfl
      rw [hRead, hParts']
      simp

/- So it does where combinators stand between the compounds. -/
theorem value?_chainFrom_append
    {left s : Selector E}
    {c c' d : Cursor}
    (hExt : Extended (GoesOn (':' :: more)) c c')
    (h : chainFrom nested left c = .ok s d)
    (hEnd : d.rest = [])
    (hTrim : Text.trimEnd c.rest = c.rest)
    (hSome : c.rest ≠ []) :
    ∃ combinator before parts o', Selector.AreParts parts ∧
      s = .relate combinator before (.ofParts parts) ∧
        value? (chainFrom nested left) c' =
          some (.relate combinator before (.ofParts (parts ++ [make parts])),
            ⟨o', []⟩) := by
  fun_induction chainFrom nested left c generalizing c' with
  | case1 left c combinator right e hNext _ ih =>
      rcases link_of_next?_some (value?_eq_some_iff.2 hNext) with
        ⟨f, hLink, hRight⟩
      rcases value?_link_extend continues_colon hExt hLink with ⟨f', hExt', hLink'⟩
      by_cases hLast : e.rest = []
      · rcases value?_compound_append hMore hExt' hRight hLast with
          ⟨parts, o', hParts, rfl, hRight'⟩
        rcases e with ⟨o, rest⟩
        cases hLast
        have hStop := value?_eq_some_iff.2 h
        rw [value?_chainFrom_end (.inl rfl)] at hStop
        simp only [Option.some.injEq, Prod.mk.injEq] at hStop
        refine ⟨combinator, left, parts, o', hParts, hStop.1.symm, ?_⟩
        rw [value?_chainFrom, next?, value?_bind, hLink', Option.bind_some]
        simp only [value?_bind, hRight', Option.bind_some, value?_pure]
        exact value?_chainFrom_end (.inl rfl) _ o'
      · have hSuffix : e.rest <:+ c.rest :=
          ((advances_compound nested).suffix hRight).trans
            (advances_link.suffix hLink)
        rcases value?_compound_stop continues_colon hExt' hRight
            fun hNil => absurd hNil hLast with ⟨e', hExt'', hRight'⟩
        rcases ih hExt'' h (Text.trimEnd_of_suffix hTrim hSuffix) hLast with
          ⟨combinator', before, parts, o', hParts, hSame, hRead⟩
        refine ⟨combinator', before, parts, o', hParts, hSame, ?_⟩
        rw [value?_chainFrom, next?, value?_bind, hLink', Option.bind_some]
        simp only [value?_bind, hRight', Option.bind_some, value?_pure]
        exact hRead
  | case2 left c e hNext =>
      cases h
      have hLink := link_of_next? (value?_eq_some_iff.2 hNext)
      rcases value?_link_finished_iff.1 hLink with ⟨rfl, _⟩
      exact absurd hEnd (Text.dropWhile_isBlank_ne_nil hTrim hSome)
  | case3 left c fault e hNext => simp at h

theorem value?_chain_append
    {s : Selector E}
    {c c' d : Cursor}
    (hExt : Extended (GoesOn (':' :: more)) c c')
    (h : value? (chain nested) c = some (s, d))
    (hEnd : d.rest = [])
    (hTrim : Text.trimEnd c.rest = c.rest) :
    ∃ before parts o', Selector.AreParts parts ∧
      s = .after before (.ofParts parts) ∧
        value? (chain nested) c' =
          some (.after before (.ofParts (parts ++ [make parts])),
            ⟨o', []⟩) := by
  rcases c with ⟨o, rest⟩
  cases rest with
  | nil =>
      rw [value?_chain, if_neg (by simp), Option.bind_eq_some_iff] at h
      rcases h with ⟨⟨first, e⟩, hFirst, _⟩
      have hLess :=
        consumes_compound nested _ _ _ (value?_eq_some_iff.1 hFirst)
      simp at hLess
  | cons x xs =>
      cases hExt.cons goesOn_cons
      rw [value?_chain] at h ⊢
      simp only [List.head?_cons, Option.bind_some] at h ⊢
      by_cases hSign : (combinator? x).isSome = true
      · simp only [hSign, ↓reduceIte] at h ⊢
        rcases value?_chainFrom_append hMore hExt
          (value?_eq_some_iff.1 h) hEnd hTrim (by simp) with
          ⟨combinator, before, parts, o', hParts, hSame, hRead⟩
        exact ⟨some (combinator, before), parts, o', hParts, hSame, hRead⟩
      · simp only [hSign, ↓reduceIte, Bool.false_eq_true] at h ⊢
        rw [Option.bind_eq_some_iff] at h
        rcases h with ⟨⟨first, e⟩, hFirst, hRest⟩
        by_cases hLast : e.rest = []
        · rcases value?_compound_append hMore hExt hFirst hLast with
            ⟨parts, o', hParts, rfl, hFirst'⟩
          rcases e with ⟨o, rest⟩
          cases hLast
          simp only at hRest
          rw [value?_chainFrom_end (.inl rfl)] at hRest
          simp only [Option.some.injEq, Prod.mk.injEq] at hRest
          refine ⟨none, parts, o', hParts, hRest.1.symm, ?_⟩
          rw [hFirst', Option.bind_some]
          exact value?_chainFrom_end (.inl rfl) _ o'
        · have hSuffix := (advances_compound nested).suffix hFirst
          rcases value?_compound_stop continues_colon hExt hFirst
              fun hNil => absurd hNil hLast with ⟨e', hExt', hFirst'⟩
          rcases value?_chainFrom_append hMore hExt'
            (value?_eq_some_iff.1 hRest) hEnd
            (Text.trimEnd_of_suffix hTrim hSuffix) hLast with
            ⟨combinator, before, parts, o', hParts, hSame, hRead⟩
          refine ⟨some (combinator, before), parts, o', hParts, hSame, ?_⟩
          rw [hFirst', Option.bind_some]
          exact hRead

------------------------------------------------------------
-- Whole Queries
------------------------------------------------------------

/- The last branch of a group goes on. -/
theorem value?_branch_append
    {s : Selector E}
    {c c' d : Cursor}
    (hExt : Extended (GoesOn (':' :: more)) c c')
    (h : value? (branch nested) c = some ((s, false), d))
    (hTrim : Text.trimEnd c.rest = c.rest) :
    ∃ before parts o', Selector.AreParts parts ∧
      s = .after before (.ofParts parts) ∧
        value? (branch nested) c' =
          some ((.after before (.ofParts (parts ++ [make parts])), false),
            ⟨o', []⟩) := by
  rcases value?_branch_start continues_colon hExt h with
    ⟨f, hSkip, hChain, hComma, hBranch⟩
  have hSuffix : c.skipBlanks.rest <:+ c.rest :=
    List.dropWhile_suffix Text.isBlank
  have hEnd : f.rest = [] := rest_of_no_comma (rest_of_chain hChain) hComma
  rcases value?_chain_append hMore hSkip hChain hEnd
      (Text.trimEnd_of_suffix hTrim hSuffix) with
    ⟨before, parts, o', hParts, hSame, hRead⟩
  refine ⟨before, parts, o', hParts, hSame, ?_⟩
  rw [hBranch, hRead, Option.bind_some]
  simp [value?_chomp_comma_end]

end Append

/- A query of one branch goes on in its last compound. -/
theorem readPart_append
    {text : List Char}
    {o : Nat}
    {s : Selector E}
    (h : readPart E ⟨o, text⟩ = .ok s)
    (hSingle : ∀ branches, s ≠ .group branches)
    (hTrim : Text.trimEnd text = text)
    {make : List (Selector E) → Selector E}
    (hMore :
      ∀ before o, ∃ o',
        value? (part? (readPart E) before) ⟨o, ':' :: more⟩ =
          some (some (make before), ⟨o', []⟩)) :
    ∃ before parts, Selector.AreParts parts ∧
      s = .after before (.ofParts parts) ∧
        readPart E ⟨o, text ++ ':' :: more⟩ =
          .ok (.after before (.ofParts (parts ++ [make parts]))) := by
  rcases readPart_eq_ok_iff.1 h with ⟨d, hGroup⟩
  have hBranch := value?_branch_of_group hGroup hSingle
  have hExt := Cursor.extended_append (':' :: more) o text
  rcases value?_branch_append hMore hExt hBranch hTrim with
    ⟨before, parts, o', hSome, hSame, hRead⟩
  refine ⟨before, parts, hSome, hSame, ?_⟩
  refine readPart_eq_ok_iff.2 ⟨⟨o', []⟩, ?_⟩
  rw [value?_group, value?_branchesFrom, hRead]
  rfl

end Scan

namespace Selector

/-
  A query of one branch is read with an index at its end as
  the same chain with the index behind the last part.  What
  the index counts is made of the parts before it alone.
-/
theorem read_append_index
    {query : String}
    {s : Selector E}
    (hRead : read E query = .ok s)
    (hSingle : ∀ branches, s ≠ .group branches)
    (hTrim : Text.trimEnd query.toList = query.toList)
    (test : IndexTest)
    {k : Nat}
    (hFits : k < UInt64.size) :
    ∃ before parts, AreParts parts ∧
      s = after before (ofParts parts) ∧
        read E (query ++ ":" ++ test.name ++ "(" ++ toString k ++ ")") =
          .ok (after before
            (ofParts (parts ++ [.index test k (ofParts parts)]))) := by
  have hText :
      (query ++ ":" ++ test.name ++ "(" ++ toString k ++ ")").toList =
        query.toList ++ ':' :: (test.name.toList ++
          ('(' :: (toString k).toList ++ ')' :: [])) := by
    simp
  have hPart :
      ∀ before o, ∃ o',
        Scan.value? (Scan.part? (Scan.readPart E) before)
            ⟨o, ':' :: (test.name.toList ++
              ('(' :: (toString k).toList ++ ')' :: []))⟩ =
          some (some (.index test k (Scan.indexCandidate before)),
            ⟨o', []⟩) := by
    intro before o
    exact value?_part?_index (Scan.readPart E) test hFits before [] o
  rcases Scan.readPart_append (readPart_of_read hRead) hSingle hTrim
      hPart with
    ⟨before, parts, hSome, hSame, hMore⟩
  have hCandidate : Scan.indexCandidate parts = ofParts parts := by
    simp [Scan.indexCandidate, hSome.1]
  rw [hCandidate] at hMore
  refine ⟨before, parts, hSome, hSame, ?_⟩
  rw [read_eq_ok_iff, hText, Cursor.before, hMore]
  rfl

end Selector

end TreeQuery
