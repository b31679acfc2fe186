import TreeQuery.Proofs.Reading.Follow
import TreeQuery.Proofs.Reading.Shift

/-
  Groups and blanks behind a text.

  Only the last part of the last compound of a chain stands at
  the end of the text.  So blanks behind the text are skipped,
  or they are taken into a name of that part, and then the
  whole selector is another one.

  Main statements:
    * `Scan.follow_partsFrom`
    * `Scan.follow_chainFrom`
    * `Scan.follow_branchesFrom`
    * `Scan.readPart_trailed`
    * `Scan.readPart_ne_trailed`
-/

namespace TreeQuery

variable {E : Engine}

namespace Selector

------------------------------------------------------------
-- Selectors with Another Last Part
------------------------------------------------------------

/- Two lists differ, and do so in their last element alone. -/
def LastApart (xs ys : List (Selector E)) : Prop :=
  ∃ before s s', xs = before ++ [s] ∧ ys = before ++ [s'] ∧ s ≠ s'

theorem ofParts_ne
    {parts parts' : List (Selector E)}
    (h : LastApart parts parts') :
    ofParts parts ≠ ofParts parts' := by
  rcases h with ⟨before, s, s', rfl, rfl, hApart⟩
  cases before with
  | nil => exact hApart
  | cons part before =>
      intro hSame
      cases before with
      | nil => exact hApart (by simpa [ofParts] using hSame)
      | cons next before => exact hApart (by simpa [ofParts] using hSame)

theorem ofBranches_ne
    {branches branches' : List (Selector E)}
    (h : LastApart branches branches') :
    ofBranches branches ≠ ofBranches branches' := by
  rcases h with ⟨before, s, s', rfl, rfl, hApart⟩
  cases before with
  | nil => exact hApart
  | cons branch before =>
      intro hSame
      cases before with
      | nil => exact hApart (by simpa [ofBranches] using hSame)
      | cons next before =>
          exact hApart (by simpa [ofBranches] using hSame)

/- Only an index becomes an index, and it keeps what it counts. -/
theorem anchorIndex_injective (c : Combinator) (left : Selector E) :
    Function.Injective (anchorIndex c left) := by
  intro s s' hSame
  unfold anchorIndex at hSame
  split at hSame
  · split at hSame
    · simpa using hSame
    · next hOther => exact absurd hSame.symm (hOther _ _ _)
  · next hOther =>
      split at hSame
      · exact absurd hSame (hOther _ _ _)
      · exact hSame

theorem anchorIndexes_injective (c : Combinator) (left : Selector E) :
    Function.Injective (anchorIndexes c left) := by
  have hKept :
      ∀ s parts, anchorIndex c left s = .compound parts →
        s = .compound parts := by
    intro s parts hSame
    unfold anchorIndex at hSame
    split at hSame
    · cases hSame
    · exact hSame
  intro s s' hSame
  unfold anchorIndexes at hSame
  split at hSame
  · split at hSame
    · have hInjective := (anchorIndex_injective c left).list_map
      rw [Selector.compound.injEq] at hSame
      rw [hInjective hSame]
    · next hOther => exact absurd (hKept _ _ hSame.symm) (hOther _)
  · next hOther =>
      split at hSame
      · exact absurd (hKept _ _ hSame) (hOther _)
      · exact anchorIndex_injective c left hSame

/- Relating a compound to a left operand loses nothing of it. -/
theorem relate_injective (c : Combinator) (left : Selector E) :
    Function.Injective (relate c left) := by
  intro s s' hSame
  rw [relate, relate, Selector.combine.injEq] at hSame
  exact anchorIndexes_injective c left hSame.2.2

end Selector

namespace Scan

open Cursor (Trails AtBlanks)
open Selector (LastApart)

variable {nested : Cursor → Except Fault (Selector E)}
variable {more : List Char} {taken : Bool}

------------------------------------------------------------
-- Compounds
------------------------------------------------------------

/- At the end of the text no further part is read. -/
theorem value?_partsFrom_stop
    {parts : List (Selector E)}
    {c : Cursor}
    (hSome : parts ≠ [])
    (hNone : c.rest.head?.bind (partStart? false) = none) :
    value? (partsFrom nested parts) c = some (parts, c) := by
  have hFirst := List.isEmpty_eq_false_iff.2 hSome
  have hPart : value? (part? nested parts) c = some (none, c) := by
    rw [value?_part?, hFirst, hNone]
  rw [value?_partsFrom, hPart]
  rfl

section Blanks

variable (hMore : Text.AreBlanks more)

include hMore

/- With blanks behind the text at most the last part is another. -/
theorem follow_partsFrom
    {before : List (Selector E)}
    {c c' : Cursor}
    (hTrails : Trails more taken false c c')
    (hSome : before = [] → c.rest ≠ []) :
    Follow more taken (fun _ => false) LastApart
      (value? (partsFrom nested before) c)
      (value? (partsFrom nested before) c') := by
  rw [value?_partsFrom, value?_partsFrom before c']
  refine (follow_part? hMore hTrails hSome).bind ?_ ?_
  · intro part d d' hRead hTrails'
    cases part with
    | none => exact .agrees hTrails'
    | some s =>
        have hLess := length_lt_of_part? (value?_eq_some_iff.1 hRead)
        exact follow_partsFrom hTrails' (by simp)
  · rintro part d part' d' ⟨hApart, hEnd⟩ parts e parts' e' hRead hRead'
    cases part with
    | none => exact hApart.elim
    | some s =>
        cases part' with
        | none => exact hApart.elim
        | some s' =>
            rcases partStart?_of_atBlanks hEnd with ⟨hNone, hNone'⟩
            have hStop :
                value? (partsFrom nested (before ++ [s])) d = _ :=
              value?_partsFrom_stop (by simp) hNone
            have hStop' :
                value? (partsFrom nested (before ++ [s'])) d' = _ :=
              value?_partsFrom_stop (by simp) hNone'
            cases hStop.symm.trans hRead
            cases hStop'.symm.trans hRead'
            exact ⟨⟨before, s, s', rfl, rfl, hApart⟩, hEnd⟩
termination_by c.rest.length

theorem follow_compound
    {c c' : Cursor}
    (hTrails : Trails more taken false c c')
    (hSome : c.rest ≠ []) :
    Follow more taken (fun _ => false) (· ≠ ·)
      (value? (compound nested) c) (value? (compound nested) c') := by
  rw [value?_compound, value?_compound]
  refine (follow_partsFrom hMore hTrails fun _ => hSome).bind ?_ ?_
  · intro parts d d' _ hTrails'
    by_cases hEmpty : parts.isEmpty = true
    · simp only [if_pos hEmpty]
      exact .fails
    · simp only [if_neg hEmpty]
      exact .agrees hTrails'
  · rintro parts d parts' d' ⟨hApart, hEnd⟩ s e s' e' hRead hRead'
    dsimp only at hRead hRead'
    split at hRead
    · simp at hRead
    · split at hRead'
      · simp at hRead'
      · cases hRead
        cases hRead'
        exact ⟨Selector.ofParts_ne hApart, hEnd⟩

------------------------------------------------------------
-- Links
------------------------------------------------------------

/-
  Blanks are skipped in both texts.  Something is left of both
  then, or nothing.
-/
theorem trails_skipBlanks
    {c c' : Cursor}
    (hTrails : Trails more taken false c c') :
    Trails more taken false c.skipBlanks c'.skipBlanks ∧
      ((c.skipBlanks.rest = [] ∧ c'.skipBlanks.rest = []) ∨
        (c.skipBlanks.rest ≠ [] ∧ c'.skipBlanks.rest ≠ [] ∧
          c'.atBlank = c.atBlank)) := by
  rcases cases_of_trails hMore hTrails with
    ⟨o, x, xs, rfl, rfl⟩ | hEnd
  · rcases hTrails.text.cons with ⟨_, hTrim, hTaken⟩
    have hLeft := Text.dropWhile_isBlank_ne_nil hTrim (by simp)
    have hSuffix : (x :: xs).dropWhile Text.isBlank <:+ x :: xs :=
      List.dropWhile_suffix Text.isBlank
    have hBlank :
        ∀ y ∈ (x :: xs).takeWhile Text.isBlank, y ≠ '\\' := by
      intro y hMem
      exact ne_of_isBlank (List.mem_takeWhile_imp hMem) (by simp)
    have hDrop :
        (x :: (xs ++ more)).dropWhile Text.isBlank =
          (x :: xs).dropWhile Text.isBlank ++ more := by
      rw [← List.cons_append, List.dropWhile_append,
        if_neg fun hNil => hLeft (List.isEmpty_iff.1 hNil)]
    rw [Cursor.skipBlanks, Cursor.dropWhile, Cursor.skipBlanks,
      Cursor.dropWhile, hDrop]
    refine ⟨hTrails.moveTo hSuffix (.inside hLeft ?_ ?_), .inr ?_⟩
    · exact Text.trimEnd_of_suffix hTrim hSuffix
    · rw [← hTaken, ← takesBlank_append hBlank hLeft false,
        List.takeWhile_append_dropWhile]
    · exact ⟨hLeft, List.append_ne_nil_of_left_ne_nil hLeft more, rfl⟩
  · rcases c with ⟨o, rest⟩
    rcases c' with ⟨o', after⟩
    rcases hEnd with ⟨rfl, hBlanks⟩
    have hDrop : after.dropWhile Text.isBlank = [] := hBlanks.dropWhile
    have hAfter : DropsBlanks more [] := ⟨more, by simp, hMore⟩
    have hTaken : takesBlank false [] [] = taken := by
      cases hTrails.text with
      | inside hSome _ _ => exact absurd rfl hSome
      | atEnd _ hTaken => rw [← hTaken, takesBlank_nil, takesBlank_nil]; rfl
    refine ⟨?_, .inl ⟨by simp, hDrop⟩⟩
    rw [Cursor.skipBlanks_nil, Cursor.skipBlanks, Cursor.dropWhile, hDrop]
    exact ⟨⟨.atEnd hAfter, fun hSome => absurd rfl hSome⟩,
      .atEnd hAfter hTaken⟩

/-
  A chain goes on in both texts alike.  What comes then in it
  is within the text.
-/
theorem follow_link
    {c c' : Cursor}
    (hTrails : Trails more taken false c c') :
    Follow more taken (fun _ => false) Never
      (value? link c) (value? link c') := by
  rw [value?_link_eq, value?_link_eq]
  rcases trails_skipBlanks hMore hTrails with
    ⟨hTrails', ⟨hNil, hNil'⟩ | ⟨hLeft, _, hBlank⟩⟩
  · rw [hNil, hNil']
    exact .agrees hTrails'
  · rw [hBlank]
    generalize c.skipBlanks = d, c'.skipBlanks = d' at hTrails' hLeft ⊢
    rcases cases_of_trails hMore hTrails' with
      ⟨o, x, xs, rfl, rfl⟩ | hEnd
    · by_cases hComma : x = ','
      · simp only [if_pos hComma]
        exact .agrees hTrails'
      · simp only [if_neg hComma]
        cases hSign : combinator? x with
        | none =>
            by_cases hSpaced : c.atBlank = true
            · simp only [if_pos hSpaced]
              exact .agrees hTrails'
            · simp only [if_neg hSpaced]
              exact .fails
        | some combinator =>
            have hPlain :
                ∀ x ∈ ['>', '+', '~'], x ≠ '\\' ∧ leadsName x = false :=
              List.all_iff_forall_prop.1 (by decide)
            rcases hPlain x (Selector.mem_of_combinator? hSign) with
              ⟨hSlash, hLeads⟩
            have hTail := hTrails'.tail hSlash (o + x.utf8Size)
            rw [hLeads] at hTail
            rcases trails_skipBlanks hMore hTail with
              ⟨hTrails'', ⟨hNil, hNil'⟩ | ⟨hLeft', hLeft'', _⟩⟩
            · simp only [hNil, hNil']
              exact .fails
            · simp only [List.isEmpty_iff, if_neg hLeft', if_neg hLeft'']
              exact .agrees hTrails''
    · exact absurd hEnd.1 hLeft

/- The compounds behind a link are there and differ. -/
def StepsApart :
    Option (Combinator × Selector E) → Option (Combinator × Selector E) → Prop
| some (k, s), some (k', s') => k = k' ∧ s ≠ s'
| _, _ => False

theorem follow_next?
    {c c' : Cursor}
    (hTrails : Trails more taken false c c') :
    Follow more taken (fun _ => false) StepsApart
      (value? (next? nested) c) (value? (next? nested) c') := by
  rw [next?, value?_bind, value?_bind]
  refine (follow_link hMore hTrails).bind ?_ fun _ _ _ _ hNever => ?_
  · intro step d d' hRead hTrails'
    cases step with
    | finished => exact .agrees hTrails'
    | related combinator =>
        have hSome : d.rest ≠ [] := by
          rcases value?_link_related_iff.1 hRead with
            ⟨x, xs, hCons, _, ⟨_, hLeft, _⟩ | ⟨_, _, _, rfl⟩⟩
          · exact hLeft
          · simp [hCons]
        simp only [value?_bind]
        refine (follow_compound hMore hTrails' hSome).bind ?_ ?_
        · intro s e e' _ hTrails''
          exact .agrees hTrails''
        · rintro s e s' e' ⟨hApart, hEnd⟩ b f b' f' hMake hMake'
          cases hMake
          cases hMake'
          exact ⟨⟨rfl, hApart⟩, hEnd⟩
  · exact hNever.1.elim

------------------------------------------------------------
-- Chains
------------------------------------------------------------

omit hMore in
/- A chain ends with the text, and so before the blanks behind it. -/
theorem chainFrom_of_atBlanks
    {c c' : Cursor}
    (h : AtBlanks c c')
    (left left' : Selector E) :
    ∃ d d', AtBlanks d d' ∧
      value? (chainFrom nested left) c = some (left, d) ∧
        value? (chainFrom nested left') c' = some (left', d') := by
  have hSkip : c.skipBlanks.rest = [] := by
    simp [Cursor.skipBlanks, Cursor.dropWhile, Cursor.moveTo, h.1]
  have hSkip' : c'.skipBlanks.rest = [] := h.2.dropWhile
  refine ⟨c.skipBlanks, c'.skipBlanks, ⟨hSkip, ?_⟩, ?_, ?_⟩
  · rw [hSkip']
    exact .nil
  · exact value?_chainFrom_finished
      (value?_link_finished_iff.2 ⟨rfl, .inl hSkip⟩) left
  · exact value?_chainFrom_finished
      (value?_link_finished_iff.2 ⟨rfl, .inl hSkip'⟩) left'

theorem follow_chainFrom
    {left : Selector E}
    {c c' : Cursor}
    (hTrails : Trails more taken false c c') :
    Follow more taken (fun _ => false) (· ≠ ·)
      (value? (chainFrom nested left) c)
      (value? (chainFrom nested left) c') := by
  rw [value?_chainFrom, value?_chainFrom left c']
  refine (follow_next? hMore hTrails).bind ?_ ?_
  · intro step d d' hRead hTrails'
    cases step with
    | none => exact .agrees hTrails'
    | some step =>
        have hLess := length_lt_of_next? (value?_eq_some_iff.1 hRead)
        exact follow_chainFrom hTrails'
  · rintro step d step' d' ⟨hApart, hEnd⟩ s e s' e' hRead hRead'
    cases step with
    | none => exact hApart.elim
    | some step =>
        cases step' with
        | none => exact hApart.elim
        | some step' =>
            rcases step with ⟨k, right⟩
            rcases step' with ⟨k', right'⟩
            rcases hApart with ⟨rfl, hApart⟩
            rcases chainFrom_of_atBlanks hEnd
                (left.relate k right) (left.relate k right') with
              ⟨f, f', hEnd', hStop, hStop'⟩
            cases hStop.symm.trans hRead
            cases hStop'.symm.trans hRead'
            exact ⟨fun hSame => hApart (Selector.relate_injective k left hSame),
              hEnd'⟩
termination_by c.rest.length

theorem follow_chain
    {c c' : Cursor}
    (hTrails : Trails more taken false c c')
    (hSome : c.rest ≠ []) :
    Follow more taken (fun _ => false) (· ≠ ·)
      (value? (chain nested) c) (value? (chain nested) c') := by
  rw [value?_chain, value?_chain, head?_of_trails hMore hTrails hSome]
  by_cases hSign : (c.rest.head?.bind combinator?).isSome = true
  · rw [if_pos hSign, if_pos hSign]
    exact follow_chainFrom hMore hTrails
  · rw [if_neg hSign, if_neg hSign]
    refine (follow_compound hMore hTrails hSome).bind ?_ ?_
    · intro s d d' _ hTrails'
      exact follow_chainFrom hMore hTrails'
    · rintro s d s' d' ⟨hApart, hEnd⟩ t e t' e' hRead hRead'
      rcases chainFrom_of_atBlanks hEnd s s' with
        ⟨f, f', hEnd', hStop, hStop'⟩
      cases hStop.symm.trans hRead
      cases hStop'.symm.trans hRead'
      exact ⟨hApart, hEnd'⟩

------------------------------------------------------------
-- Groups
------------------------------------------------------------

/- Two branches differ, and both are the last. -/
def BranchesApart (read read' : Selector E × Bool) : Prop :=
  read.1 ≠ read'.1 ∧ read.2 = false ∧ read'.2 = false

theorem follow_branch
    {c c' : Cursor}
    (hTrails : Trails more taken false c c') :
    Follow more taken (fun _ => false) BranchesApart
      (value? (branch nested) c) (value? (branch nested) c') := by
  rw [value?_branch_eq, value?_branch_eq]
  rcases trails_skipBlanks hMore hTrails with
    ⟨hTrails', ⟨hNil, hNil'⟩ | ⟨hLeft, _, _⟩⟩
  · rw [hNil, hNil']
    exact .fails
  · rw [head?_of_trails hMore hTrails' hLeft]
    by_cases hNone : c.skipBlanks.rest.head?.all (· == ',') = true
    · rw [if_pos hNone, if_pos hNone]
      exact .fails
    · rw [if_neg hNone, if_neg hNone]
      simp only [Option.map_eq_bind]
      have hComma : ",".toList = [','] := rfl
      refine (follow_chain hMore hTrails' hLeft).bind ?_ ?_
      · intro s d d' _ hTrails''
        refine (follows_chomp hMore hComma (by simp) d d' hTrails'').bind
          ?_ fun _ _ _ _ hNever => hNever.1.elim
        intro comma e e' _ hLast
        cases comma with
        | true => exact .agrees hLast
        | false => exact .agrees hLast
      · rintro s d s' d' ⟨hApart, hEnd⟩ b e b' e' hRead hRead'
        rcases head?_of_atBlanks hEnd ',' (by simp) with ⟨hOther, hOther'⟩
        dsimp only at hRead hRead'
        rw [value?_chomp_none hComma (by simp) hOther] at hRead
        rw [value?_chomp_none hComma (by simp) hOther'] at hRead'
        cases hRead
        cases hRead'
        exact ⟨⟨hApart, rfl, rfl⟩, hEnd⟩

theorem follow_branchesFrom
    {before : List (Selector E)}
    {c c' : Cursor}
    (hTrails : Trails more taken false c c') :
    Follow more taken (fun _ => false) LastApart
      (value? (branchesFrom nested before) c)
      (value? (branchesFrom nested before) c') := by
  rw [value?_branchesFrom, value?_branchesFrom before c']
  refine (follow_branch hMore hTrails).bind ?_ ?_
  · rintro ⟨s, goesOn⟩ d d' hRead hTrails'
    cases goesOn with
    | false => exact .agrees hTrails'
    | true =>
        have hLess := length_lt_of_branch (value?_eq_some_iff.1 hRead)
        exact follow_branchesFrom hTrails'
  · rintro ⟨s, goesOn⟩ d ⟨s', goesOn'⟩ d' ⟨⟨hApart, hLast, hLast'⟩, hEnd⟩
      branches e branches' e' hRead hRead'
    cases hLast
    cases hLast'
    cases hRead
    cases hRead'
    exact ⟨⟨before, s, s', rfl, rfl, hApart⟩, hEnd⟩
termination_by c.rest.length

theorem follow_group
    {c c' : Cursor}
    (hTrails : Trails more taken false c c') :
    Follow more taken (fun _ => false) (· ≠ ·)
      (value? (group nested) c) (value? (group nested) c') := by
  rw [value?_group, value?_group, Option.map_eq_bind, Option.map_eq_bind]
  refine (follow_branchesFrom hMore hTrails).bind ?_ ?_
  · intro branches d d' _ hTrails'
    exact .agrees hTrails'
  · rintro branches d branches' d' ⟨hApart, hEnd⟩ s e s' e' hRead hRead'
    cases hRead
    cases hRead'
    exact ⟨Selector.ofBranches_ne hApart, hEnd⟩

------------------------------------------------------------
-- Whole Selectors
------------------------------------------------------------

/-
  Blanks behind a text that are not taken into a name make no
  difference.
-/
theorem readPart_trailed
    {text : List Char}
    (hTrim : Text.trimEnd text = text)
    (hTaken : takesBlank false text more = false)
    {o : Nat}
    {s : Selector E} :
    readPart E ⟨o, text ++ more⟩ = .ok s ↔ readPart E ⟨o, text⟩ = .ok s := by
  have hTrails :
      Trails more false false ⟨o, text⟩ ⟨o, text ++ more⟩ :=
    ⟨Cursor.extended_append more o text, trailed_append hTrim hTaken⟩
  have hOutcome :
      Follow more false (fun _ => false) (· ≠ ·)
        (value? (group (readPart E)) ⟨o, text⟩)
        (value? (group (readPart E)) ⟨o, text ++ more⟩) :=
    follow_group hMore hTrails
  rw [readPart_eq_ok_iff, readPart_eq_ok_iff]
  generalize value? (group (readPart E)) ⟨o, text⟩ = read?,
    value? (group (readPart E)) ⟨o, text ++ more⟩ = read?' at hOutcome ⊢
  cases hOutcome with
  | fails => simp
  | agrees hTrails' => simp
  | differs hNever => simp at hNever

/- Blanks that are taken into a name make another selector of it. -/
theorem readPart_ne_trailed
    {text : List Char}
    (hTrim : Text.trimEnd text = text)
    (hTaken : takesBlank false text more = true)
    {o : Nat}
    {s : Selector E}
    (h : readPart E ⟨o, text⟩ = .ok s) :
    readPart E ⟨o, text ++ more⟩ ≠ .ok s := by
  have hTrails :
      Trails more true false ⟨o, text⟩ ⟨o, text ++ more⟩ :=
    ⟨Cursor.extended_append more o text, trailed_append hTrim hTaken⟩
  have hOutcome :
      Follow more true (fun _ => false) (· ≠ ·)
        (value? (group (readPart E)) ⟨o, text⟩)
        (value? (group (readPart E)) ⟨o, text ++ more⟩) :=
    follow_group hMore hTrails
  intro hBoth
  rcases readPart_eq_ok_iff.1 h with ⟨d, hRead⟩
  rcases readPart_eq_ok_iff.1 hBoth with ⟨d', hRead'⟩
  rw [hRead, hRead'] at hOutcome
  have hEnd := rest_of_group hRead
  cases hOutcome with
  | agrees hTrails' =>
      rcases d with ⟨o', rest⟩
      cases hEnd
      cases hTrails'.text with
      | inside hSome _ _ => exact absurd rfl hSome
      | atEnd _ hTaken' => simp [takesBlank_nil] at hTaken'
  | differs _ hApart => exact (hApart _ _ _ _ rfl rfl).1 rfl

end Blanks

end Scan

end TreeQuery
