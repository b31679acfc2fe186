import TreeQuery.Proofs.Reading.Composition
import TreeQuery.Proofs.Reading.Trail

/-
  A blank between two selectors.

  A blank relates the compound behind it to what stands before
  it.  Only an escape at the end of a text may take it: if no
  blank is left then, what comes behind goes on with the name.

  Key definitions include:
    * `takesGap`
    * `Spaced`

  Main statements:
    * `continues_spaced`
    * `Scan.readPart_space`
-/

namespace TreeQuery

variable {E : Engine}

open Cursor (Extended)

------------------------------------------------------------
-- Gaps
------------------------------------------------------------

/-
  The blanks before the second text, and one more that could
  stand in a name, as what comes behind the first text.
-/
def gapProbe (more : List Char) : List Char :=
  more.takeWhile Text.isBlank ++ ['\u00a0']

/-
  An escape at the end of the first text takes what blanks
  there are before the second one.
-/
def takesGap (text more : List Char) : Bool :=
  takesBlank false text (gapProbe more)

/- The text begins with a blank that no name has. -/
def startsSpaced (text : List Char) : Bool :=
  text.head?.any fun x => Text.isBlank x && !isIdentifierChar x

theorem exists_of_startsSpaced
    {text : List Char}
    (h : startsSpaced text = true) :
    ∃ x xs, text = x :: xs ∧ Text.isBlank x = true ∧
      isIdentifierChar x = false := by
  cases text with
  | nil => simp [startsSpaced] at h
  | cons x xs =>
      have hFirst : Text.isBlank x = true ∧ isIdentifierChar x = false := by
        simpa [startsSpaced] using h
      exact ⟨x, xs, rfl, hFirst⟩

/-
  A text and the same text going on behind a blank.  At its end
  a blank is left.
-/
inductive Spaced (more : List Char) : List Char → List Char → Prop where
| inside {text : List Char}
    (hSome : text ≠ [])
    (hGap : takesGap text more = false) :
    Spaced more text (text ++ more)
| atEnd {after : List Char}
    (hAfter : DropsBlanks more after)
    (hSpaced : startsSpaced after = true) :
    Spaced more [] after

section Gaps

variable {more : List Char} (hMore : startsSpaced more = true)

include hMore

theorem spaced_append
    {text : List Char}
    (inName : Bool)
    (hGap : takesBlank inName text (gapProbe more) = false) :
    Spaced more text (text ++ more) := by
  cases text with
  | nil => exact .atEnd (.refl more) hMore
  | cons x xs =>
      refine .inside (by simp) ?_
      rw [takesGap, takesBlank_of_ne_nil (by simp) false inName, hGap]

omit hMore in
theorem Spaced.cons
    {x : Char}
    {xs rest : List Char}
    (h : Spaced more (x :: xs) rest) :
    rest = x :: (xs ++ more) ∧
      takesBlank false (x :: xs) (gapProbe more) = false := by
  cases h with
  | inside hSome hGap => exact ⟨rfl, hGap⟩

/- A name ends where a blank is left. -/
omit hMore in
theorem readIdentifier?_of_startsSpaced
    {after : List Char}
    (h : startsSpaced after = true) :
    readIdentifier? after = some ([], after) := by
  rcases exists_of_startsSpaced h with ⟨x, xs, rfl, hBlank, hChar⟩
  have hSlash : x ≠ '\\' := ne_of_isBlank hBlank (by simp)
  rw [readIdentifier?.eq_3 _ _ hSlash, if_neg (by simp [hChar])]

/-
  An escape at the end of the text leaves a blank, since one
  more behind all of them would not be taken into the name.
-/
theorem startsSpaced_of_escape
    {takes : Bool}
    (hGap :
      (if takes then Text.dropBlank (gapProbe more)
        else gapProbe more).head?.any isIdentifierChar = false) :
    startsSpaced (if takes then Text.dropBlank more else more) = true := by
  have hNoBreak : isIdentifierChar '\u00a0' = true := by decide
  cases takes with
  | false => exact hMore
  | true =>
      rcases exists_of_startsSpaced hMore with ⟨x, xs, rfl, hBlank, _⟩
      simp only [↓reduceIte, gapProbe, Text.dropBlank, hBlank,
        List.takeWhile_cons_of_pos, List.cons_append] at hGap ⊢
      cases xs with
      | nil => simp [hNoBreak] at hGap
      | cons y ys =>
          by_cases hNext : Text.isBlank y = true
          · rw [List.takeWhile_cons_of_pos hNext] at hGap
            simpa [startsSpaced, hNext] using hGap
          · rw [List.takeWhile_cons_of_neg hNext] at hGap
            simp [hNoBreak] at hGap

/- No hexadecimal digit comes next. -/
theorem not_isHexDigit_of_startsSpaced :
    more.head?.any Text.isHexDigit = false := by
  rcases exists_of_startsSpaced hMore with ⟨x, xs, rfl, hBlank, _⟩
  exact not_isHexDigit_of_isBlank hBlank

theorem not_isHexDigit_gapProbe :
    (gapProbe more).head?.any Text.isHexDigit = false := by
  rcases exists_of_startsSpaced hMore with ⟨x, xs, rfl, hBlank, _⟩
  rw [gapProbe, List.takeWhile_cons_of_pos hBlank]
  exact not_isHexDigit_of_isBlank hBlank

/- An escape is read alike, and leaves a text that goes on so. -/
theorem Spaced.readEscape?
    {cs rest : List Char}
    {d : Char}
    (hGap : takesBlank false ('\\' :: cs) (gapProbe more) = false)
    (h : Text.readEscape? cs = some (d, rest)) :
    ∃ rest', Spaced more rest rest' ∧
      Text.readEscape? (cs ++ more) = some (d, rest') := by
  rw [takesBlank_escape h] at hGap
  cases rest with
  | nil =>
      rcases readEscape?_atEnd h with ⟨takes, hTakes⟩
      have hProbe := hTakes (not_isHexDigit_gapProbe hMore)
      have hRead := hTakes (not_isHexDigit_of_startsSpaced hMore)
      rw [List.isEmpty_nil, if_pos rfl, behindEscape, hProbe,
        takesBlank_nil, Bool.true_and] at hGap
      have hSpaced := startsSpaced_of_escape hMore hGap
      refine ⟨_, .atEnd ?_ hSpaced, hRead⟩
      cases takes with
      | false => exact .refl more
      | true =>
          rcases exists_of_startsSpaced hMore with ⟨x, xs, rfl, hBlank, _⟩
          refine ⟨[x], ?_, by simp [hBlank]⟩
          simp [Text.dropBlank, hBlank]
  | cons x xs =>
      rcases readEscape?_goesOn (not_isHexDigit_of_startsSpaced hMore) h with
        ⟨rest', hRest, hRead⟩
      cases goesOn_cons hRest
      exact ⟨_, spaced_append hMore true (by simpa using hGap), hRead⟩

/- So every reader keeps to the text. -/
theorem continues_spaced : Continues more (Spaced more) where
  cons h := h.cons.1
  tail h hSlash := by
    have hGap := h.cons.2
    rw [takesBlank_cons hSlash] at hGap
    exact spaced_append hMore _ hGap
  behind h hBrackets hRead := by
    have hSides : ∀ {opening closing}, areBrackets opening closing = true →
        opening ≠ '\\' ∧ closing ∈ [')', ']'] := by
      intro opening closing hBoth
      rcases cases_of_areBrackets hBoth with ⟨rfl, rfl⟩ | ⟨rfl, rfl⟩
      · decide
      · decide
    rcases hSides hBrackets with ⟨hSlash, hClosing⟩
    have hGap := h.cons.2
    rw [takesBlank_cons hSlash, takesBlank_balanced hClosing hRead] at hGap
    exact spaced_append hMore _ hGap
  escape h hRead := Spaced.readEscape? hMore h.cons.2 hRead
  atEnd h := by
    cases h with
    | inside hSome => exact absurd rfl hSome
    | atEnd hAfter => exact hAfter
  noName h := by
    cases h with
    | inside hSome => exact absurd rfl hSome
    | atEnd _ hSpaced => exact readIdentifier?_of_startsSpaced hSpaced
  noSign h := by
    rcases h with hSome | ⟨_, hSpaced⟩
    · exact absurd rfl hSome
    · rcases exists_of_startsSpaced hSpaced with ⟨y, ys, hSame, hBlank, _⟩
      cases hSame
      have hAll : ∀ y ∈ ['|', '*'], Text.isBlank y = false :=
        List.all_iff_forall_prop.1 (by decide)
      intro hMem
      rw [hAll _ hMem] at hBlank
      exact absurd hBlank (by simp)

/- No part begins with a blank. -/
omit hMore in
theorem endsCompound_spaced : EndsCompound (Spaced more) := by
  intro after hAfter
  cases hAfter with
  | inside hSome => exact absurd rfl hSome
  | atEnd _ hSpaced =>
      rcases exists_of_startsSpaced hSpaced with ⟨x, xs, rfl, hBlank, _⟩
      simp [Scan.partStart?, ne_of_isBlank hBlank]

end Gaps

namespace Scan

------------------------------------------------------------
-- Blanks Between Compounds
------------------------------------------------------------

/- A compound begins with the start of a part. -/
theorem isSome_partStart?_of_compound
    {nested : Cursor → Except Fault (Selector E)}
    {c d : Cursor}
    {s : Selector E}
    (h : value? (compound nested) c = some (s, d)) :
    (c.rest.head?.bind (partStart? true)).isSome = true := by
  rw [value?_compound, value?_partsFrom, value?_part?] at h
  cases hStart : c.rest.head?.bind (partStart? true) with
  | none => simp [hStart] at h
  | some start => rfl

/- So it begins with no sign. -/
theorem not_sign_of_partStart?
    {x : Char}
    (h : (partStart? true x).isSome = true) :
    x ≠ ',' ∧ combinator? x = none := by
  have hAll :
      ∀ x ∈ [',', '>', '+', '~'], partStart? true x = none :=
    List.all_iff_forall_prop.1 (by decide)
  refine ⟨?_, ?_⟩
  · rintro rfl
    simp [hAll] at h
  · rw [Option.eq_none_iff_forall_ne_some]
    intro c hSign
    have hMem := List.mem_cons_of_mem ',' (Selector.mem_of_combinator? hSign)
    simp [hAll x hMem] at h

/- Behind a blank the compound is read again. -/
theorem value?_next?_space
    {text : List Char}
    {c d : Cursor}
    {t : Selector E}
    (hRead : value? (compound (readPart E))
      (Cursor.skipBlanks ⟨0, text⟩) = some (t, d))
    (hBlank : c.atBlank = true)
    (hRest : c.skipBlanks.rest = text.dropWhile Text.isBlank) :
    ∃ e, e.rest = d.rest ∧
      value? (next? (readPart E)) c = some (some (.descendant, t), e) := by
  have hStart := isSome_partStart?_of_compound hRead
  have hHere :
      (Cursor.skipBlanks ⟨0, text⟩).rest = c.skipBlanks.rest :=
    hRest.symm
  rw [hHere] at hStart
  have hLink :
      value? link c = some (.related .descendant, c.skipBlanks) := by
    cases hCons : c.skipBlanks.rest with
    | nil => simp [hCons] at hStart
    | cons x xs =>
        rw [hCons] at hStart
        rcases not_sign_of_partStart? hStart with ⟨hComma, hSign⟩
        exact value?_link_related_iff.2
          ⟨x, xs, hCons, hComma, .inr ⟨hSign, hBlank, rfl, rfl⟩⟩
  rcases compound_of_rest hRead hHere.symm with ⟨e, hSame, hAgain⟩
  refine ⟨e, hSame, ?_⟩
  rw [next?, value?_bind, hLink, Option.bind_some]
  simp only [value?_bind, hAgain, Option.bind_some, value?_pure]

/- Where only blanks are left of the text, a blank comes next. -/
theorem atBlank_of_spaced
    {more : List Char}
    {c c' : Cursor}
    (h : Extended (Spaced more) c c')
    (hLast : c.skipBlanks.rest = []) :
    c'.atBlank = true := by
  rcases c with ⟨o, rest⟩
  cases rest with
  | nil =>
      rcases c' with ⟨o', after⟩
      cases h.text with
      | inside hSome => exact absurd rfl hSome
      | atEnd _ hSpaced =>
          rcases exists_of_startsSpaced hSpaced with
            ⟨x, xs, rfl, hBlank, _⟩
          exact hBlank
  | cons x xs =>
      have hBlanks : ∀ y ∈ x :: xs, Text.isBlank y = true :=
        List.dropWhile_eq_nil_iff.1 hLast
      rw [h.cons fun hText => hText.cons.1]
      exact hBlanks x (by simp)

/-
  A blank between two selectors relates the second one to the
  first as a descendant if the first is no group, the second is
  a compound, and the blank is not taken by an escape.
-/
theorem readPart_space
    {left right : List Char}
    {s t : Selector E}
    (hLeft : readPart E ⟨0, left⟩ = .ok s)
    (hRight : readPart E ⟨0, right⟩ = .ok t)
    (hSingle : ∀ branches, s ≠ .group branches)
    (hSingle' : ∀ branches, t ≠ .group branches)
    (hCompound : ∀ k l r, t ≠ .combine k l r)
    {x : Char}
    (hBlank : Text.isAsciiBlank x = true)
    (hGap : takesGap left (x :: right) = false) :
    readPart E ⟨0, left ++ x :: right⟩ = .ok (s.relate .descendant t) := by
  rcases isAsciiBlank_spec hBlank with ⟨hSkipped, hChar, _⟩
  have hMore : startsSpaced (x :: right) = true := by
    simp [startsSpaced, hSkipped, hChar]
  have hGoes := continues_spaced hMore
  rcases branch_of_readPart_append hLeft hSingle hGoes endsCompound_spaced
    (spaced_append hMore false hGap) with ⟨d, e, hExt, hLast, hBranch⟩
  have hRest := hGoes.skipBlanks_atEnd hExt hLast
  rw [List.dropWhile_cons_of_pos hSkipped] at hRest
  have hAtBlank := atBlank_of_spaced hExt hLast
  rcases compound_of_readPart hRight hSingle' hCompound with
    ⟨f, _, hRead, hEnd⟩
  rcases value?_next?_space hRead hAtBlank hRest with ⟨g, hSame, hNext⟩
  have hEnd' : g.skipBlanks.rest = [] := by
    rw [Cursor.skipBlanks, Cursor.dropWhile, hSame]
    exact hEnd
  rw [value?_chainFrom_last hNext hEnd', Option.bind_some] at hBranch
  exact readPart_of_branch hBranch hEnd'

end Scan

end TreeQuery
