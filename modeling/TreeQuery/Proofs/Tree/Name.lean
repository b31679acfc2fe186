import TreeQuery.Proofs.Text.Ascii
import TreeQuery.Tree.Name

/-
  Names are divided at their first colon.

  A name that is divided is written as it was before.  Colons
  have one case only, so that a name is a qualifier, a colon
  and a local part up to case exactly if it is divided into
  the two.  A qualifier has no colon, which leaves one place
  to divide the name.

  Main statements:
    * `Name.text_parse`
    * `Name.isWritten_parse_iff`
    * `Name.qualifies_parse_iff`
-/

namespace TreeQuery.Name

------------------------------------------------------------
-- Divided Names
------------------------------------------------------------

/- A text is divided at its first colon, if both parts have some text. -/
theorem parse_of_split
    {s : String}
    {before after : List Char}
    (hSplit : s.toList = before ++ ':' :: after)
    (hFirst : ':' ∉ before) :
    parse s =
      if before.isEmpty || after.isEmpty then unqualified s
      else qualified (String.ofList before) (String.ofList after) := by
  rw [parse, hSplit, (Text.span_of_not_mem hFirst after).1]

/- A text without a colon is not divided. -/
theorem parse_of_not_mem
    {s : String}
    (h : ':' ∉ s.toList) :
    parse s = unqualified s := by
  rw [parse, (Text.span_of_not_mem h []).2]

/- Divided or not, a name is written as it was. -/
theorem text_parse (s : String) : (parse s).text = s := by
  by_cases hColon : ':' ∈ s.toList
  · rcases List.eq_append_cons_of_mem hColon with
      ⟨before, after, hSplit, hFirst⟩
    rw [parse_of_split hSplit hFirst]
    split
    · rfl
    · rw [qualified, text, ← String.toList_inj, hSplit]
      simp
  · rw [parse_of_not_mem hColon]
    rfl

------------------------------------------------------------
-- Comparisons
------------------------------------------------------------

theorem isWritten_parse_iff
    {s t : String} :
    (parse s).isWritten t = true ↔
      Text.asciiLower s.toList = Text.asciiLower t.toList := by
  rw [isWritten, text_parse, Text.equalIgnoringCase_iff]

theorem asciiLower_ne_nil
    {cs ds : List Char}
    (hSame : Text.asciiLower cs = Text.asciiLower ds)
    (hSome : ds ≠ []) :
    cs ≠ [] := by
  rintro rfl
  exact hSome (List.map_eq_nil_iff.1 hSame.symm)

/-
  A qualifier without a colon and a local part are those of a
  name, up to case, if the name is written with a colon
  between them.
-/
theorem qualifies_parse_iff
    {s q l : String}
    (hQualifier : q ≠ "")
    (hColon : ':' ∉ q.toList)
    (hLocal : l ≠ "") :
    (parse s).hasQualifier q = true ∧ (parse s).hasLocalPart l = true ↔
      Text.asciiLower s.toList =
        Text.asciiLower (q.toList ++ ':' :: l.toList) := by
  have hMark : ':'.isAlpha = false := by decide
  rw [Text.asciiLower_eq_append_cons_iff hMark]
  constructor
  · rintro ⟨hQualified, hLocalPart⟩
    rw [hasQualifier, Option.any_eq_true] at hQualified
    rcases hQualified with ⟨before, hBefore, hSame⟩
    have hSplit :
        s.toList = before.toList ++ ':' :: (parse s).localPart.toList := by
      have hText := congrArg String.toList (text_parse s)
      rw [text, hBefore] at hText
      simpa using hText.symm
    exact ⟨_, _, hSplit, Text.equalIgnoringCase_iff.1 hSame,
      Text.equalIgnoringCase_iff.1 hLocalPart⟩
  · rintro ⟨before, after, hSplit, hBefore, hAfter⟩
    have hFirst : ':' ∉ before := by
      rwa [← Text.mem_asciiLower_iff hMark, hBefore,
        Text.mem_asciiLower_iff hMark]
    have hSome : before ≠ [] ∧ after ≠ [] :=
      ⟨asciiLower_ne_nil hBefore (by simpa using hQualifier),
        asciiLower_ne_nil hAfter (by simpa using hLocal)⟩
    have hParse := parse_of_split hSplit hFirst
    simp only [List.isEmpty_eq_false_iff.2 hSome.1,
      List.isEmpty_eq_false_iff.2 hSome.2, Bool.or_self,
      Bool.false_eq_true, ↓reduceIte] at hParse
    rw [hParse]
    simp [qualified, hasQualifier, hasLocalPart, hBefore, hAfter]

end TreeQuery.Name
