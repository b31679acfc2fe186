import TreeQuery.Pattern.Standard
import TreeQuery.Proofs.Reading.Locality
import TreeQuery.Proofs.Reading.Window

/-
  Queries that are put together from others.

  A comma between two queries lists the branches of both.  The
  sign of a combinator relates the compound behind it to the
  chain before it, whatever blanks stand around the sign.

  Key definitions include:
    * `Text.isAsciiBlank`
    * `Selector.branches`

  Main statements:
    * `Scan.branchesFrom_append_comma`
    * `Scan.readPart_comma`
    * `Scan.readPart_sign`
    * `Scan.readPart_leading_sign`
    * `Selector.read_composes`
-/

namespace TreeQuery

variable {E : Engine}

open Cursor (Extended)

------------------------------------------------------------
-- Separators
------------------------------------------------------------

/- A character is an ASCII blank. -/
def Text.isAsciiBlank (x : Char) : Bool :=
  isBlank x && x.toNat < 128

/- An ASCII blank is no part of a name, and no part begins with it. -/
theorem isAsciiBlank_spec
    {x : Char}
    (h : Text.isAsciiBlank x = true) :
    Text.isBlank x = true ∧ isIdentifierChar x = false ∧
      Scan.partStart? false x = none := by
  simp only [Text.isAsciiBlank, Bool.and_eq_true, decide_eq_true_eq] at h
  have hAll :
      (List.range 128).all fun n =>
        !Text.isBlank (Char.ofNat n)
          || !isIdentifierChar (Char.ofNat n)
            && Scan.partStart? false (Char.ofNat n) == none := by
    decide +kernel
  have hCase :=
    Text.forall_ascii
      (p := fun x =>
        !Text.isBlank x
          || !isIdentifierChar x && Scan.partStart? false x == none)
      hAll h.2
  rw [h.1] at hCase
  exact ⟨h.1, by simpa using hCase⟩

section Separators

variable {x : Char} (hSign : x ∈ [',', '>', '+', '~'])

include hSign

/- A separator is no blank, and no part begins with it. -/
theorem separator_spec :
    Text.isBlank x = false ∧ Scan.partStart? false x = none := by
  have hAll :
      ∀ x ∈ [',', '>', '+', '~'],
        Text.isBlank x = false ∧ Scan.partStart? false x = none :=
    List.all_iff_forall_prop.1 (by decide)
  exact hAll x hSign

variable
  {blanks : List Char}
  (hBlanks : ∀ y ∈ blanks, Text.isAsciiBlank y = true)
  (rest : List Char)

include hBlanks

/- Behind ASCII blanks a separator ends tokens. -/
theorem endsToken_separated :
    endsToken (blanks ++ x :: rest) = true := by
  induction blanks with
  | nil =>
      have hMem : x ∈ [':', ',', '>', '+', '~'] :=
        List.mem_cons_of_mem ':' hSign
      simp [endsToken, hMem]
  | cons y ys ih =>
      rcases isAsciiBlank_spec (hBlanks y (by simp)) with
        ⟨hBlank, hChar, _⟩
      have hRest := ih fun z hMem => hBlanks z (by simp [hMem])
      rw [List.cons_append, endsToken, hBlank, hChar, hRest]
      simp

/- No part begins there. -/
theorem beginsNoPart_separated :
    BeginsNoPart (blanks ++ x :: rest) := by
  rcases separator_spec hSign with ⟨hUnblank, hStart⟩
  intro after hDrops
  rcases hDrops.exists_of_unblank hUnblank with ⟨left, hLeft, rfl⟩
  cases left with
  | nil => exact hStart
  | cons y ys =>
      exact (isAsciiBlank_spec (hBlanks y (hLeft.subset (by simp)))).2.2

omit hBlanks in
/- The blanks before a separator are those that are skipped. -/
theorem dropWhile_separated
    (hBlanks : ∀ y ∈ blanks, Text.isBlank y = true) :
    (blanks ++ x :: rest).dropWhile Text.isBlank = x :: rest := by
  have hUnblank := (separator_spec hSign).1
  rw [List.dropWhile_append_of_pos hBlanks,
    List.dropWhile_cons_of_neg (by simp [hUnblank])]

end Separators

/- So it is with a comma alone. -/
theorem endsToken_comma (more : List Char) :
    endsToken (',' :: more) = true :=
  rfl

theorem beginsNoPart_comma (more : List Char) :
    BeginsNoPart (',' :: more) := by
  have hNone : ∀ y ∈ ([] : List Char), Text.isAsciiBlank y = true := by
    simp
  exact beginsNoPart_separated (by simp) hNone more

------------------------------------------------------------
-- Branches
------------------------------------------------------------

namespace Selector

/- The branches of a group, and of any other selector itself. -/
def branches : Selector E → List (Selector E)
| .group branches => branches
| s => [s]

theorem branches_of_ne_group
    {s : Selector E}
    (h : ∀ branches, s ≠ .group branches) :
    s.branches = [s] := by
  cases s with
  | group branches => exact absurd rfl (h branches)
  | _ => rfl

/- A list of branches that are no groups is found again. -/
theorem branches_ofBranches
    {branches : List (Selector E)}
    (hSome : branches ≠ [])
    (hChains : ∀ b ∈ branches, IsChain (fun _ => True) b) :
    (ofBranches branches).branches = branches := by
  match branches with
  | [] => exact absurd rfl hSome
  | [branch] => exact branches_of_ne_group (hChains branch (by simp)).ne_group
  | first :: second :: rest => rfl

/- Two lists of branches make up a group. -/
theorem ofBranches_append
    {xs ys : List (Selector E)}
    (hLeft : xs ≠ [])
    (hRight : ys ≠ []) :
    ofBranches (xs ++ ys) = .group (xs ++ ys) := by
  match xs, ys with
  | [], _ => exact absurd rfl hLeft
  | _, [] => exact absurd rfl hRight
  | [x], y :: ys => rfl
  | x :: x' :: xs, y :: ys => rfl

end Selector

namespace Scan

variable {nested : Cursor → Except Fault (Selector E)}
variable {more : List Char}

/- The last branch of a group is followed by the comma. -/
theorem value?_branch_append_comma
    {s : Selector E}
    {c c' d : Cursor}
    (hExt : Extended (GoesOn (',' :: more)) c c')
    (h : value? (branch nested) c = some ((s, false), d)) :
    ∃ o, value? (branch nested) c' = some ((s, true), ⟨o, more⟩) := by
  have hGoes := continues_goesOn (endsToken_comma more)
  have hStop := (beginsNoPart_comma more).endsCompound
  rcases value?_branch_last hGoes hStop hExt h with
    ⟨f, e, hExt', hEnd, hBranch⟩
  have hRest := hGoes.skipBlanks_atEnd hExt' hEnd
  rw [List.dropWhile_cons_of_neg (by decide)] at hRest
  have hLink :
      value? link e =
        some (.finished, ⟨e.skipBlanks.offset, ',' :: more⟩) := by
    rw [← hRest]
    exact value?_link_finished_iff.2 ⟨rfl, .inr ⟨more, hRest⟩⟩
  refine ⟨e.skipBlanks.offset + 1, ?_⟩
  rw [hBranch, value?_chainFrom_finished hLink, Option.bind_some]
  simp only [value?_chomp_comma, Option.map_some]

/- A group that a comma follows goes on behind the comma. -/
theorem branchesFrom_append_comma
    {before branches : List (Selector E)}
    {c c' d : Cursor}
    (hExt : Extended (GoesOn (',' :: more)) c c')
    (h : branchesFrom nested before c = .ok branches d) :
    ∃ e, c'.Reaches e ∧ e.rest = more ∧
      branchesFrom nested before c' = branchesFrom nested branches e := by
  have hGoes := continues_goesOn (endsToken_comma more)
  have hStop := (beginsNoPart_comma more).endsCompound
  fun_induction branchesFrom nested before c generalizing c' with
  | case1 before c s e hBranch _ ih =>
      rcases value?_branch_comma hGoes hStop hExt
        (value?_eq_some_iff.2 hBranch) with ⟨e', hExt', hBranch'⟩
      rw [value?_eq_some_iff] at hBranch'
      have hReach := advances_branch nested c'
      rw [hBranch'] at hReach
      rcases ih hExt' h with ⟨f, hReach', hRest, hRead⟩
      refine ⟨f, hReach.trans hReach', hRest, ?_⟩
      rw [branchesFrom_step, hBranch']
      exact hRead
  | case2 before c s e hBranch =>
      cases h
      rcases value?_branch_append_comma hExt
        (value?_eq_some_iff.2 hBranch) with ⟨o, hBranch'⟩
      rw [value?_eq_some_iff] at hBranch'
      have hReach := advances_branch nested c'
      rw [hBranch'] at hReach
      refine ⟨⟨o, more⟩, hReach, rfl, ?_⟩
      rw [branchesFrom_step, hBranch']
  | case3 before c fault e hBranch => simp at h

/- The branches before do not matter to those that are read. -/
theorem branchesFrom_before
    (before : List (Selector E))
    (c : Cursor) :
    branchesFrom nested before c =
      match branchesFrom nested [] c with
      | .ok branches d => .ok (before ++ branches) d
      | .error fault d => .error fault d := by
  induction hLength : c.rest.length using Nat.strongRecOn
    generalizing before c with
  | ind n ih =>
      rw [branchesFrom_step, branchesFrom_step [] c]
      cases hBranch : branch nested c with
      | error fault d => rfl
      | ok read d =>
          rcases read with ⟨s, goesOn⟩
          cases goesOn with
          | false => rfl
          | true =>
              have hLess := length_lt_of_branch hBranch
              simp only
              rw [ih _ (by omega) (before ++ [s]) d rfl,
                ih _ (by omega) ([] ++ [s]) d rfl]
              cases branchesFrom nested [] d with
              | error fault e => rfl
              | ok branches e => simp

------------------------------------------------------------
-- Commas
------------------------------------------------------------

/- A part of a query is read as the list of its branches. -/
theorem readPart_eq_ofBranches (part : Cursor) :
    readPart E part =
      match branchesFrom (readPart E) [] part with
      | .ok branches _ => .ok (.ofBranches branches)
      | .error fault _ => .error fault := by
  have hGroup :
      group (readPart E) part =
        match branchesFrom (readPart E) [] part with
        | .ok branches d => .ok (.ofBranches branches) d
        | .error fault d => .error fault d := by
    cases hRead : branchesFrom (readPart E) [] part with
    | error fault d => exact bind_eq_error hRead
    | ok branches d => exact bind_eq_of_ok hRead
  rw [readPart_eq, hGroup]
  cases branchesFrom (readPart E) [] part with
  | error fault d => rfl
  | ok branches d => rfl

/- What branches are read makes up the selector they came from. -/
theorem branches_of_branchesFrom
    {branches : List (Selector E)}
    {c d : Cursor}
    (h : branchesFrom (readPart E) [] c = .ok branches d) :
    branches ≠ [] ∧ (Selector.ofBranches branches).branches = branches := by
  rcases shape_branchesFrom (fun _ _ _ => trivial) (by simp) h with
    ⟨hSome, hChains⟩
  exact ⟨hSome, Selector.branches_ofBranches hSome hChains⟩

/- Branches are read behind `k` more bytes as they are without. -/
theorem branchesFrom_shift (k : Nat) (c : Cursor) :
    branchesFrom (readPart E) [] (c.shift k) =
      shiftResult k id (branchesFrom (readPart E) [] c) := by
  have hNested : NestedShifts k c (readPart E) (readPart E) :=
    fun inner _ => readPart_shift k inner
  exact shifts_branchesFrom hNested [] (.refl c)

/-
  Behind a selector and a comma a part of a query is read as
  it is alone, with its offsets moved.
-/
theorem readPart_comma
    {text : List Char}
    {s : Selector E}
    (h : readPart E ⟨0, text⟩ = .ok s)
    (more : List Char) :
    readPart E ⟨0, text ++ ',' :: more⟩ =
      match readPart E ⟨0, more⟩ with
      | .ok t => .ok (.group (s.branches ++ t.branches))
      | .error fault =>
          .error (fault.shift (Text.byteLength text + 1)) := by
  rw [readPart_eq_ofBranches] at h
  cases hLeft : branchesFrom (readPart E) [] ⟨0, text⟩ with
  | error fault d => simp [hLeft] at h
  | ok left d =>
      rw [hLeft] at h
      cases h
      rcases branches_of_branchesFrom hLeft with ⟨hSome, hBranches⟩
      have hExt := Cursor.extended_append (',' :: more) 0 text
      rcases branchesFrom_append_comma hExt hLeft with
        ⟨e, ⟨read, hSplit, hOffset⟩, hRest, hRead⟩
      have hBehind :
          e = (⟨0, more⟩ : Cursor).shift (Text.byteLength text + 1) := by
        have hWhole : (text ++ [',']) ++ more = read ++ more := by
          simpa [hRest] using hSplit
        have hByte : ','.utf8Size = 1 := rfl
        rw [← List.append_cancel_right hWhole] at hOffset
        simp only [Text.byteLength_append, Text.byteLength_cons,
          Text.byteLength_nil, hByte] at hOffset
        rcases e with ⟨o, rest⟩
        cases hRest
        simp only [Cursor.shift, Cursor.mk.injEq, and_true]
        omega
      rw [readPart_eq_ofBranches, hRead, branchesFrom_before, hBehind,
        branchesFrom_shift, readPart_eq_ofBranches ⟨0, more⟩, hBranches]
      cases hRight : branchesFrom (readPart E) [] ⟨0, more⟩ with
      | error fault e => rfl
      | ok right e =>
          rcases branches_of_branchesFrom hRight with ⟨hSome', hBranches'⟩
          simp only [shiftResult, id_eq, hBranches',
            Selector.ofBranches_append hSome hSome']

------------------------------------------------------------
-- Signs
------------------------------------------------------------

/- A chain of more than its left operand is a combination. -/
theorem exists_combine_of_chainFrom
    {combinator : Combinator}
    {left right s : Selector E}
    {c d : Cursor}
    (h : chainFrom nested (left.relate combinator right) c = .ok s d) :
    ∃ k l r, s = .combine k l r := by
  generalize hStart : left.relate combinator right = start at h
  fun_induction chainFrom nested start c
    generalizing combinator left right with
  | case1 start c combinator' right' e hNext _ ih => exact ih rfl h
  | case2 start c e hNext =>
      cases h
      exact ⟨_, _, _, hStart.symm⟩
  | case3 start c fault e hNext => simp at h

/- A chain that is no combination is a compound that nothing follows. -/
theorem compound_of_chain
    {s : Selector E}
    {c d : Cursor}
    (h : value? (chain nested) c = some (s, d))
    (hSingle : ∀ k l r, s ≠ .combine k l r) :
    ∃ e, value? (compound nested) c = some (s, e) ∧
      value? link e = some (.finished, d) := by
  have hFinished :
      ∀ {left : Selector E} {e : Cursor},
        value? (chainFrom nested left) e = some (s, d) →
          left = s ∧ value? link e = some (.finished, d) := by
    intro left e hRead
    rw [value?_chainFrom, Option.bind_eq_some_iff] at hRead
    rcases hRead with ⟨⟨next, f⟩, hNext, hRest⟩
    cases next with
    | none =>
        cases hRest
        exact ⟨rfl, link_of_next? hNext⟩
    | some step =>
        rcases step with ⟨combinator, right⟩
        rcases exists_combine_of_chainFrom (value?_eq_some_iff.1 hRest)
          with ⟨k, l, r, hSame⟩
        exact absurd hSame (hSingle k l r)
  rw [value?_chain] at h
  by_cases hSign : (c.rest.head?.bind combinator?).isSome = true
  · rw [if_pos hSign] at h
    rcases value?_link_finished_iff.1 (hFinished h).2 with ⟨rfl, hRest⟩
    rcases c with ⟨o, rest⟩
    cases rest with
    | nil => simp at hSign
    | cons x xs =>
        rcases Option.isSome_iff_exists.1 hSign with ⟨k, hKnown⟩
        rcases Selector.isBlank_of_combinator? hKnown with
          ⟨hUnblank, hOther⟩
        rw [Cursor.skipBlanks_cons_of_not hUnblank] at hRest
        rcases hRest with hNil | ⟨ys, hComma⟩
        · cases hNil
        · cases hComma
          exact absurd rfl hOther
  · rw [if_neg hSign, Option.bind_eq_some_iff] at h
    rcases h with ⟨⟨first, e⟩, hFirst, hRest⟩
    rcases hFinished hRest with ⟨rfl, hLink⟩
    exact ⟨e, hFirst, hLink⟩

/- A compound is the same wherever its text stands. -/
theorem compound_of_rest
    {t : Selector E}
    {c c' d : Cursor}
    (h : value? (compound (readPart E)) c = some (t, d))
    (hSame : c'.rest = c.rest) :
    ∃ d', d'.rest = d.rest ∧
      value? (compound (readPart E)) c' = some (t, d') := by
  have hShifts :
      ∀ k, Shifts k id (compound (readPart E)) (compound (readPart E))
        ⟨0, c.rest⟩ := by
    intro k
    have hNested : NestedShifts k ⟨0, c.rest⟩ (readPart E) (readPart E) :=
      fun inner _ => readPart_shift k inner
    exact shifts_compound hNested (.refl _)
  exact Shifts.value?_of_rest hShifts rfl hSame h

/- A query of one branch goes on where its text does. -/
theorem branch_of_readPart_append
    {text : List Char}
    {s : Selector E}
    (h : readPart E ⟨0, text⟩ = .ok s)
    (hSingle : ∀ branches, s ≠ .group branches)
    {Goes : List Char → List Char → Prop}
    (hGoes : Continues more Goes)
    (hStop : EndsCompound Goes)
    (hText : Goes text (text ++ more)) :
    ∃ e e', Extended Goes e e' ∧ e.skipBlanks.rest = [] ∧
      value? (branch (readPart E)) ⟨0, text ++ more⟩ =
        (value? (chainFrom (readPart E) s) e').bind fun (t, f) =>
          (value? (chomp ",") f).map fun (comma, g) => ((t, comma), g) := by
  rcases readPart_eq_ok_iff.1 h with ⟨d, hGroup⟩
  have hBranch := value?_branch_of_group hGroup hSingle
  have hExt : Extended Goes ⟨0, text⟩ ⟨0, text ++ more⟩ :=
    ⟨hText, fun _ => rfl⟩
  exact value?_branch_last hGoes hStop hExt hBranch

/- A query that is a compound is one between blanks. -/
theorem compound_of_readPart
    {c : Cursor}
    {s : Selector E}
    (h : readPart E c = .ok s)
    (hSingle : ∀ branches, s ≠ .group branches)
    (hCompound : ∀ k l r, s ≠ .combine k l r) :
    ∃ d, c.skipBlanks.rest ≠ [] ∧
      value? (compound (readPart E)) c.skipBlanks = some (s, d) ∧
        d.skipBlanks.rest = [] := by
  rcases readPart_eq_ok_iff.1 h with ⟨d, hGroup⟩
  have hBranch := value?_branch_of_group hGroup hSingle
  rcases chain_of_branch hBranch with ⟨f, hNone, hChain, hComma⟩
  rcases compound_of_chain hChain hCompound with ⟨e, hRead, hLink⟩
  rcases value?_link_finished_iff.1 hLink with ⟨rfl, hStopped⟩
  refine ⟨e, ?_, hRead, rest_of_no_comma hStopped hComma⟩
  intro hNil
  simp [hNil] at hNone

/- Behind a sign and blanks the compound is read again. -/
theorem value?_next?_sign
    {x : Char}
    {combinator : Combinator}
    (hSign : combinator? x = some combinator)
    {blanks text : List Char}
    (hBlanks : ∀ y ∈ blanks, Text.isBlank y = true)
    {c d : Cursor}
    {t : Selector E}
    (hText : text.dropWhile Text.isBlank ≠ [])
    (hRead : value? (compound (readPart E))
      (Cursor.skipBlanks ⟨0, text⟩) = some (t, d))
    (hRest : c.skipBlanks.rest = x :: (blanks ++ text)) :
    ∃ e, e.rest = d.rest ∧
      value? (next? (readPart E)) c = some (some (combinator, t), e) := by
  have hSkip :
      (Cursor.skipBlanks
          ⟨c.skipBlanks.offset + x.utf8Size, blanks ++ text⟩).rest =
        text.dropWhile Text.isBlank :=
    List.dropWhile_append_of_pos hBlanks
  have hOther := (Selector.isBlank_of_combinator? hSign).2
  have hLink :
      value? link c =
        some (.related combinator,
          Cursor.skipBlanks
            ⟨c.skipBlanks.offset + x.utf8Size, blanks ++ text⟩) :=
    value?_link_related_iff.2
      ⟨x, _, hRest, hOther, .inl ⟨hSign, hSkip ▸ hText, rfl⟩⟩
  rcases compound_of_rest hRead hSkip with ⟨e, hSame, hAgain⟩
  refine ⟨e, hSame, ?_⟩
  rw [next?, value?_bind, hLink, Option.bind_some]
  simp only [value?_bind, hAgain, Option.bind_some, value?_pure]

/- A chain ends behind a compound that only blanks follow. -/
theorem value?_chainFrom_last
    {c e : Cursor}
    {combinator : Combinator}
    {t : Selector E}
    (hNext :
      value? (next? (readPart E)) c = some (some (combinator, t), e))
    (hEnd : e.skipBlanks.rest = [])
    (s : Selector E) :
    value? (chainFrom (readPart E) s) c =
      some (s.relate combinator t, e.skipBlanks) := by
  have hLink : value? link e = some (.finished, e.skipBlanks) :=
    value?_link_finished_iff.2 ⟨rfl, .inl hEnd⟩
  rw [value?_chainFrom, hNext]
  exact value?_chainFrom_finished hLink _

/- A text is read as its first branch if nothing is left behind it. -/
theorem readPart_of_branch
    {c e : Cursor}
    {s : Selector E}
    (h :
      value? (branch (readPart E)) c =
        (value? (chomp ",") e).map fun (comma, d) => ((s, comma), d))
    (hEnd : e.rest = []) :
    readPart E c = .ok s := by
  rw [value?_chomp_comma_end hEnd] at h
  refine readPart_eq_ok_iff.2 ⟨e, ?_⟩
  rw [value?_group, value?_branchesFrom, h]
  rfl

/-
  Behind a sign and blanks a compound is related to what
  stands before the sign, and ends the chain.
-/
theorem value?_chainFrom_sign
    {x : Char}
    {combinator : Combinator}
    (hSign : combinator? x = some combinator)
    {blanks text : List Char}
    (hBlanks : ∀ y ∈ blanks, Text.isBlank y = true)
    {t : Selector E}
    (hText : readPart E ⟨0, text⟩ = .ok t)
    (hSingle : ∀ branches, t ≠ .group branches)
    (hCompound : ∀ k l r, t ≠ .combine k l r)
    {c : Cursor}
    (hRest : c.skipBlanks.rest = x :: (blanks ++ text))
    (s : Selector E) :
    ∃ e, e.rest = [] ∧
      value? (chainFrom (readPart E) s) c =
        some (s.relate combinator t, e) := by
  rcases compound_of_readPart hText hSingle hCompound with
    ⟨d, hSome, hRead, hEnd⟩
  rcases value?_next?_sign hSign hBlanks hSome hRead hRest with
    ⟨f, hSame, hNext⟩
  have hEnd' : f.skipBlanks.rest = [] := by
    rw [Cursor.skipBlanks, Cursor.dropWhile, hSame]
    exact hEnd
  exact ⟨f.skipBlanks, hEnd', value?_chainFrom_last hNext hEnd' s⟩

/-
  The sign of a combinator between two selectors, with blanks
  around it, relates the second one to the first if the first
  is no group and the second is a compound.
-/
theorem readPart_sign
    {left right : List Char}
    {s t : Selector E}
    (hLeft : readPart E ⟨0, left⟩ = .ok s)
    (hRight : readPart E ⟨0, right⟩ = .ok t)
    (hSingle : ∀ branches, s ≠ .group branches)
    (hSingle' : ∀ branches, t ≠ .group branches)
    (hCompound : ∀ k l r, t ≠ .combine k l r)
    {x : Char}
    {combinator : Combinator}
    (hSign : combinator? x = some combinator)
    {before after : List Char}
    (hBefore : ∀ y ∈ before, Text.isAsciiBlank y = true)
    (hAfter : ∀ y ∈ after, Text.isAsciiBlank y = true) :
    readPart E ⟨0, left ++ (before ++ x :: (after ++ right))⟩ =
      .ok (s.relate combinator t) := by
  have hMem : x ∈ [',', '>', '+', '~'] :=
    List.mem_cons_of_mem ',' (Selector.mem_of_combinator? hSign)
  have hGoes :=
    continues_goesOn (endsToken_separated hMem hBefore (after ++ right))
  have hStop := beginsNoPart_separated hMem hBefore (after ++ right)
  have hBlanks : ∀ y ∈ before, Text.isBlank y = true :=
    fun y hY => (isAsciiBlank_spec (hBefore y hY)).1
  have hBlanks' : ∀ y ∈ after, Text.isBlank y = true :=
    fun y hY => (isAsciiBlank_spec (hAfter y hY)).1
  rcases branch_of_readPart_append hLeft hSingle hGoes hStop.endsCompound
    (goesOn_append _ left) with ⟨d, e, hExt, hLast, hBranch⟩
  have hRest := hGoes.skipBlanks_atEnd hExt hLast
  rw [dropWhile_separated hMem _ hBlanks] at hRest
  rcases value?_chainFrom_sign hSign hBlanks' hRight hSingle' hCompound
    hRest s with ⟨f, hEnd, hChain⟩
  rw [hChain, Option.bind_some] at hBranch
  exact readPart_of_branch hBranch hEnd

/- Before everything else a sign relates a compound to the scope. -/
theorem readPart_leading_sign
    {right : List Char}
    {t : Selector E}
    (hRight : readPart E ⟨0, right⟩ = .ok t)
    (hSingle : ∀ branches, t ≠ .group branches)
    (hCompound : ∀ k l r, t ≠ .combine k l r)
    {x : Char}
    {combinator : Combinator}
    (hSign : combinator? x = some combinator)
    {blanks : List Char}
    (hBlanks : ∀ y ∈ blanks, Text.isBlank y = true)
    (o : Nat) :
    readPart E ⟨o, x :: (blanks ++ right)⟩ =
      .ok (Selector.scope.relate combinator t) := by
  rcases Selector.isBlank_of_combinator? hSign with ⟨hUnblank, hOther⟩
  have hSkip :
      Cursor.skipBlanks ⟨o, x :: (blanks ++ right)⟩ =
        ⟨o, x :: (blanks ++ right)⟩ :=
    Cursor.skipBlanks_cons_of_not hUnblank o _
  rcases value?_chainFrom_sign (c := ⟨o, x :: (blanks ++ right)⟩) hSign
    hBlanks hRight hSingle hCompound (by rw [hSkip]) .scope with
    ⟨e, hEnd, hChain⟩
  refine readPart_of_branch (e := e) ?_ hEnd
  rw [value?_branch_eq, hSkip, value?_chain]
  simp [hSign, hOther, hChain]

end Scan

------------------------------------------------------------
-- Queries
------------------------------------------------------------

namespace Selector

/-
  Queries are read part by part.  A comma joins the branches
  of two queries, and a fault of the second one keeps its
  cause behind the first one and the comma.  The sign of a
  combinator relates a compound to all that stands before it,
  and blanks around the sign make no difference.
-/
theorem read_composes (E : Engine) :
    (∀ (left right : String) (s : Selector E),
      read E left = .ok s →
        read E (left ++ "," ++ right) =
          match read E right with
          | .ok t => .ok (.group (s.branches ++ t.branches))
          | .error e =>
              .error (e.inside (Text.byteLength left.toList + 1)
                (left ++ "," ++ right))) ∧
      (∀ (left right before after : String) (sign : Char)
          (combinator : Combinator) (s t : Selector E),
        read E left = .ok s →
        (∀ branches, s ≠ .group branches) →
        read E right = .ok t →
        (∀ branches, t ≠ .group branches) →
        (∀ c l r, t ≠ .combine c l r) →
        combinator? sign = some combinator →
        (∀ x ∈ before.toList, Text.isAsciiBlank x = true) →
        (∀ x ∈ after.toList, Text.isAsciiBlank x = true) →
        read E (left ++ before ++ sign.toString ++ after ++ right) =
          .ok (s.relate combinator t)) := by
  refine ⟨?_, ?_⟩
  · intro left right s hLeft
    have hText :
        (left ++ "," ++ right).toList =
          left.toList ++ ',' :: right.toList := by
      simp
    have hComma :=
      Scan.readPart_comma (readPart_of_read hLeft) right.toList
    rw [read_eq_mapError, read_eq_mapError right, Cursor.before,
      Cursor.before, hText, hComma]
    cases Scan.readPart E ⟨0, right.toList⟩ with
    | error fault => rfl
    | ok t => rfl
  · intro left right before after sign combinator s t hLeft hSingle hRight
      hSingle' hCompound hSign hBefore hAfter
    have hText :
        (left ++ before ++ sign.toString ++ after ++ right).toList =
          left.toList ++
            (before.toList ++ sign :: (after.toList ++ right.toList)) := by
      simp
    have hRead :=
      Scan.readPart_sign (readPart_of_read hLeft) (readPart_of_read hRight)
        hSingle hSingle' hCompound hSign hBefore hAfter
    rw [read_eq_mapError, Cursor.before, hText, hRead]
    rfl

/-
  The group `a,.b` goes on with another one and with a fault,
  and the blank behind the escape `\62` is part of it.
-/
theorem read_composes_escape :
    read .standard "a,.b,c,d" =
        .ok (.group
          [.tag (.name "a"), .className "b",
           .tag (.name "c"), .tag (.name "d")]) ∧
      read .standard "a,.b,>" =
        .error ⟨⟨.expectedSelectorAfter '>', 6⟩, "a,.b,>"⟩ ∧
      read .standard "a\\62 >:eq(0)" =
        .ok (.combine .child (.tag (.name "ab"))
          (.index .equalTo 0
            (.combine .child (.tag (.name "ab")) .universal))) := by
  have hLeft :
      read .standard "a,.b" =
        .ok (.group [.tag (.name "a"), .className "b"]) := by
    with_unfolding_all rfl
  have hRight :
      read .standard "c,d" =
        .ok (.group [.tag (.name "c"), .tag (.name "d")]) := by
    with_unfolding_all rfl
  have hFault :
      read .standard ">" =
        .error ⟨⟨.expectedSelectorAfter '>', 1⟩, ">"⟩ := by
    with_unfolding_all rfl
  have hEscape : read .standard "a\\62" = .ok (.tag (.name "ab")) := by
    with_unfolding_all rfl
  have hIndex :
      read .standard ":eq(0)" = .ok (.index .equalTo 0 .universal) := by
    with_unfolding_all rfl
  have hGroup := (read_composes .standard).1 "a,.b" "c,d" _ hLeft
  have hMoved := (read_composes .standard).1 "a,.b" ">" _ hLeft
  have hRelated :=
    (read_composes .standard).2 "a\\62" ":eq(0)" " " "" '>' .child _ _
      hEscape (by simp) hIndex (by simp) (by simp) rfl
      (List.all_iff_forall_prop.1 (by decide))
      (List.all_iff_forall_prop.1 (by decide))
  rw [hRight] at hGroup
  rw [hFault] at hMoved
  exact ⟨hGroup, hMoved, hRelated⟩

end Selector

end TreeQuery
