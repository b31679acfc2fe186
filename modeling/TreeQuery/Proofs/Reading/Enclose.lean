import TreeQuery.Proofs.Reading.PseudoClass

/-
  Windows inside of other windows.

  What is read with a cursor of its own stands between two
  brackets of the text that it is read from, so that something
  of the outer text is left on both sides of it.

  Key definitions include:
    * `Cursor.Holds`
    * `Cursor.Encloses`
    * `Scan.Opens`

  Main statements:
    * `Cursor.wellFounded_encloses`
    * `Scan.encloses_balanced`
    * `Scan.encloses_argument`
-/

namespace TreeQuery

namespace Cursor

------------------------------------------------------------
-- Offsets
------------------------------------------------------------

/- Reading something moves the offset on. -/
theorem Reaches.offset_lt
    {c d : Cursor}
    (hReach : c.Reaches d)
    (hLess : d.rest.length < c.rest.length) :
    c.offset < d.offset := by
  rcases hReach with ⟨text, hRest, hOffset⟩
  have hSome : Text.byteLength text ≠ 0 := by
    intro hZero
    rw [Text.byteLength_eq_zero_iff.1 hZero] at hRest
    simp [hRest] at hLess
  omega

/- Skipping blanks moves on by their bytes. -/
theorem skipBlanks_eq (o : Nat) (text : List Char) :
    (⟨o, text⟩ : Cursor).skipBlanks =
      ⟨o + Text.byteLength (text.takeWhile Text.isBlank),
        Text.trimStart text⟩ := by
  have hSplit :
      text.takeWhile Text.isBlank ++ Text.trimStart text = text :=
    List.takeWhile_append_dropWhile
  have hMove :=
    moveTo_append o (text.takeWhile Text.isBlank) (Text.trimStart text)
  rwa [hSplit] at hMove

/- A character of the text begins at the offset, or the text ends there. -/
def Holds (part : Cursor) (o : Nat) : Prop :=
  ∃ before after, part.rest = before ++ after ∧
    o = part.offset + Text.byteLength before

/- A reader of the text stands at one of its places. -/
theorem Reaches.holds
    {part c : Cursor}
    (h : part.Reaches c) :
    part.Holds c.offset := by
  rcases h with ⟨text, hRest, hOffset⟩
  exact ⟨text, c.rest, hRest, hOffset⟩

------------------------------------------------------------
-- Windows
------------------------------------------------------------

/-
  The second text is a part of the first one, neither at its
  start nor at its end, and has the offset at which it stands.
-/
def Encloses (outer inner : Cursor) : Prop :=
  ∃ before after, before ≠ [] ∧ after ≠ [] ∧
    outer.rest = before ++ (inner.rest ++ after) ∧
      inner.offset = outer.offset + Text.byteLength before

namespace Encloses

variable {outer inner : Cursor}

/- What is enclosed is shorter. -/
theorem length_lt (h : outer.Encloses inner) :
    inner.rest.length < outer.rest.length := by
  rcases h with ⟨before, after, hBefore, _, hRest, _⟩
  have hPos := List.length_pos_iff.2 hBefore
  rw [hRest, List.length_append, List.length_append]
  omega

theorem trans
    {last : Cursor}
    (hFirst : outer.Encloses inner)
    (hLast : inner.Encloses last) :
    outer.Encloses last := by
  rcases hFirst with ⟨xs, ys, hXs, hYs, hRest, hOffset⟩
  rcases hLast with ⟨xs', ys', _, _, hRest', hOffset'⟩
  refine ⟨xs ++ xs', ys' ++ ys, by simp [hXs], by simp [hYs], ?_, ?_⟩
  · simp [hRest, hRest']
  · rw [hOffset', hOffset, Text.byteLength_append, Nat.add_assoc]

/- The places of the inner text are places of the outer one. -/
theorem holds
    {o : Nat}
    (h : outer.Encloses inner)
    (hHolds : inner.Holds o) :
    outer.Holds o := by
  rcases h with ⟨xs, ys, _, _, hRest, hOffset⟩
  rcases hHolds with ⟨before, after, hSplit, rfl⟩
  refine ⟨xs ++ before, after ++ ys, by simp [hRest, hSplit], ?_⟩
  rw [hOffset, Text.byteLength_append, Nat.add_assoc]

end Encloses

/- What a later text encloses is enclosed by the whole. -/
theorem Reaches.encloses
    {c d part : Cursor}
    (hReach : c.Reaches d)
    (h : d.Encloses part) :
    c.Encloses part := by
  rcases hReach with ⟨text, hRest, hOffset⟩
  rcases h with ⟨before, after, hBefore, hAfter, hRest', hOffset'⟩
  refine ⟨text ++ before, after, by simp [hBefore], hAfter, ?_, ?_⟩
  · rw [hRest, hRest', List.append_assoc]
  · rw [hOffset', hOffset, Text.byteLength_append, Nat.add_assoc]

/- Windows are not inside of one another forever. -/
theorem wellFounded_encloses :
    WellFounded fun inner outer : Cursor => outer.Encloses inner :=
  Subrelation.wf (fun h => h.length_lt)
    (measure fun c : Cursor => c.rest.length).wf

end Cursor

namespace Scan

------------------------------------------------------------
-- Brackets
------------------------------------------------------------

theorem Advances.reaches
    {α : Type}
    {act : Scan α}
    (hAct : Advances act)
    {part c d : Cursor}
    {a : α}
    (hReach : part.Reaches c)
    (h : act c = .ok a d) :
    part.Reaches d := by
  have hNext := hAct c
  rw [h] at hNext
  exact hReach.trans hNext

/- Both brackets stand around what is read between them. -/
theorem encloses_balanced
    {opening closing : Char}
    (hClosing : closing ∉ ['\\', '"', '\'', opening])
    {code : Code}
    {c d part : Cursor}
    (h : balanced opening closing code c = .ok part d) :
    c.Encloses part := by
  rcases (balanced_eq_ok_iff hClosing).1 h with ⟨_, hRest, hOffset, _⟩
  exact ⟨[opening], closing :: d.rest, by simp, by simp, hRest, hOffset⟩

/- Both parentheses stand around an argument. -/
theorem encloses_argument
    {name : String}
    {c d part : Cursor}
    (h : argument name c = .ok part d) :
    c.Encloses part := by
  rcases argument_eq_ok_iff.1 h with ⟨text, _, _, hRest, _, rfl⟩
  refine ⟨'(' :: text.takeWhile Text.isBlank,
    Text.endBlanks (Text.trimStart text) ++ ')' :: d.rest,
    by simp, by simp, ?_, ?_⟩
  · rw [hRest]
    conv => lhs; rw [← Text.blanks_append_trim_append text]
    simp
  · rw [Cursor.skipBlanks_eq, Text.byteLength_cons, Nat.add_assoc]

/- The second text is an argument that a reader of the first can find. -/
def Opens (part inner : Cursor) : Prop :=
  ∃ name c d, part.Reaches c ∧ argument name c = .ok inner d

theorem Opens.encloses
    {part inner : Cursor}
    (h : Opens part inner) :
    part.Encloses inner := by
  rcases h with ⟨name, c, d, hReach, hRead⟩
  exact hReach.encloses (encloses_argument hRead)

end Scan

end TreeQuery
