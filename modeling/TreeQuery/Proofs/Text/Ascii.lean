import Mathlib.Data.Bool.AllAny
import Mathlib.Data.List.TakeDrop
import Mathlib.Data.List.TakeWhile
import TreeQuery.Text.Ascii
import TreeQuery.Text.Blank

/-
  ASCII characters and their small letters.

  What is to hold of every ASCII character can be tried on all
  of them.  Only letters have two cases, so that a text in small
  letters is divided by other characters where it was before.

  Main statements:
    * `Text.forall_ascii`
    * `Text.toLower_eq_iff`
    * `Text.asciiLowerString_idem`
    * `Text.span_of_not_mem`
    * `Text.asciiLower_eq_append_cons_iff`
-/

namespace TreeQuery.Text

/- What holds of the first 128 code points holds of ASCII. -/
theorem forall_ascii
    {p : Char → Bool}
    (hAll : (List.range 128).all fun n => p (Char.ofNat n))
    {c : Char}
    (hAscii : c.toNat < 128) :
    p c = true := by
  have hCode := List.all_eq_true.1 hAll c.toNat (List.mem_range.2 hAscii)
  rwa [Char.ofNat_toNat] at hCode

theorem toLower_of_not_ascii
    {c : Char}
    (h : ¬ c.toNat < 128) :
    c.toLower = c := by
  have hNotUpper : ¬ (c.val ≥ 'A'.val ∧ c.val ≤ 'Z'.val) := by
    rintro ⟨_, hUpper⟩
    rw [UInt32.le_iff_toNat_le] at hUpper
    have hBound : c.toNat ≤ 90 := hUpper
    omega
  exact dif_neg hNotUpper

/- A small letter has no smaller one. -/
theorem toLower_toLower (c : Char) : c.toLower.toLower = c.toLower := by
  by_cases hAscii : c.toNat < 128
  · have hAll :
        (List.range 128).all fun n =>
          (Char.ofNat n).toLower.toLower == (Char.ofNat n).toLower := by
      decide +kernel
    exact eq_of_beq
      (forall_ascii (p := fun c => c.toLower.toLower == c.toLower)
        hAll hAscii)
  · rw [toLower_of_not_ascii hAscii, toLower_of_not_ascii hAscii]

/- A capital has a small letter, and nothing else changes. -/
theorem isAlpha_of_toLower_ne
    {c : Char}
    (h : c.toLower ≠ c) :
    c.isAlpha = true ∧ c.toLower.isAlpha = true := by
  have hAscii : c.toNat < 128 := by
    by_contra hOther
    exact h (toLower_of_not_ascii hOther)
  have hAll :
      (List.range 128).all fun n =>
        (Char.ofNat n).toLower == Char.ofNat n ||
          (Char.ofNat n).isAlpha && (Char.ofNat n).toLower.isAlpha := by
    decide +kernel
  have hCase :=
    forall_ascii (p := fun c =>
      c.toLower == c || c.isAlpha && c.toLower.isAlpha) hAll hAscii
  simpa [h] using hCase

/- A character that is no letter has one case only. -/
theorem toLower_eq_iff
    {mark : Char}
    (hMark : mark.isAlpha = false)
    (c : Char) :
    c.toLower = mark ↔ c = mark := by
  by_cases hSame : c.toLower = c
  · rw [hSame]
  · have hLetters := isAlpha_of_toLower_ne hSame
    constructor
    · rintro rfl
      simp [hMark] at hLetters
    · rintro rfl
      simp [hMark] at hLetters

/- So have the signs of selectors. -/
theorem toLower_eq_sign_iff
    {sign : Char}
    (hSign : sign ∈ ['|', '*', '^', ','])
    (c : Char) :
    c.toLower = sign.toLower ↔ c = sign := by
  have hMarks : ∀ sign ∈ ['|', '*', '^', ','], sign.isAlpha = false :=
    List.all_iff_forall_prop.1 (by decide)
  have hMark := hMarks sign hSign
  rw [(toLower_eq_iff hMark sign).2 rfl, toLower_eq_iff hMark]

theorem asciiLower_idem (cs : List Char) :
    asciiLower (asciiLower cs) = asciiLower cs := by
  rw [asciiLower, asciiLower, List.map_map]
  exact List.map_congr_left fun c _ => toLower_toLower c

theorem asciiLowerString_idem (s : String) :
    asciiLowerString (asciiLowerString s) = asciiLowerString s := by
  simp [asciiLowerString, asciiLower_idem]

/- Digits are no blanks and have one case only. -/
theorem isBlank_of_isDigit
    {c : Char}
    (h : c.isDigit = true) :
    isBlank c = false ∧ c.toLower = c := by
  have hAscii : c.toNat < 128 := by
    simp only [Char.isDigit, Bool.and_eq_true, decide_eq_true_eq,
      UInt32.le_iff_toNat_le] at h
    have hBound : c.toNat ≤ 57 := h.2
    omega
  have hAll :
      (List.range 128).all fun n =>
        !(Char.ofNat n).isDigit ||
          !isBlank (Char.ofNat n) &&
            (Char.ofNat n).toLower == Char.ofNat n := by
    decide +kernel
  have hCase :=
    forall_ascii (p := fun c =>
      !c.isDigit || !isBlank c && c.toLower == c) hAll hAscii
  simpa [h] using hCase

------------------------------------------------------------
-- Marks
------------------------------------------------------------

section Marks

variable {mark : Char}

/- A text is divided at the first place of a mark. -/
theorem span_of_not_mem
    {before : List Char}
    (h : mark ∉ before)
    (after : List Char) :
    (before ++ mark :: after).span (· != mark) = (before, mark :: after) ∧
      before.span (· != mark) = (before, []) := by
  have hKept : ∀ c ∈ before, (c != mark) = true := by
    intro c hMem
    simp only [bne_iff_ne]
    rintro rfl
    exact h hMem
  constructor
  · rw [List.span_eq_takeWhile_dropWhile,
      List.takeWhile_append_of_pos hKept, List.dropWhile_append_of_pos hKept]
    simp
  · rw [List.span_eq_takeWhile_dropWhile,
      List.takeWhile_eq_self_iff.2 hKept, List.dropWhile_eq_nil_iff.2 hKept]

variable (hMark : mark.isAlpha = false)

include hMark

theorem mem_asciiLower_iff (cs : List Char) :
    mark ∈ asciiLower cs ↔ mark ∈ cs := by
  simp [asciiLower, toLower_eq_iff hMark]

/- In small letters a text has the marks that it had before. -/
theorem asciiLower_eq_append_cons_iff
    {cs before after : List Char} :
    asciiLower cs = asciiLower (before ++ mark :: after) ↔
      ∃ xs ys, cs = xs ++ mark :: ys ∧
        asciiLower xs = asciiLower before ∧
          asciiLower ys = asciiLower after := by
  have hSmall : mark.toLower = mark := (toLower_eq_iff hMark mark).2 rfl
  constructor
  · intro h
    rw [asciiLower, asciiLower, List.map_append, List.map_cons, hSmall] at h
    rcases List.map_eq_append_iff.1 h with ⟨xs, tail, rfl, hFirst, hTail⟩
    rcases List.map_eq_cons_iff.1 hTail with ⟨c, ys, rfl, hSign, hRest⟩
    rw [toLower_eq_iff hMark] at hSign
    exact ⟨xs, ys, by rw [hSign], hFirst, hRest⟩
  · rintro ⟨xs, ys, rfl, hFirst, hRest⟩
    simp only [asciiLower] at hFirst hRest ⊢
    rw [List.map_append, List.map_append, List.map_cons, List.map_cons,
      hFirst, hRest]

end Marks

end TreeQuery.Text
