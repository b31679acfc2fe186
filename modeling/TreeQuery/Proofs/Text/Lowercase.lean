import TreeQuery.Text.Blank
import TreeQuery.Text.Lowercase

/-
  Small letters and single spaces, made a second time.

  Small letters have no smaller ones, and a text with single
  spaces between its words keeps them when it is turned into
  small letters.  So a normalised needle is its own needle.

  Key definitions include:
    * `Text.IsSettled`
    * `Text.isSpaced`

  Main statements:
    * `Text.lowercase_lowercase`
    * `Text.normalizeBlanks_lowercase`
-/

namespace TreeQuery.Text

------------------------------------------------------------
-- Characters
------------------------------------------------------------

/- The small letters of the character are the character. -/
def IsSettled (c : Char) : Prop :=
  lowerChar c = c ∧ c ≠ 'Σ' ∧ c ≠ 'İ'

instance (c : Char) : Decidable (IsSettled c) :=
  inferInstanceAs (Decidable (_ ∧ _ ∧ _))

/- No code point to which a shift leads stands in a range. -/
def Shift.misses (s : Shift) (first last : Nat) : Bool :=
  Nat.blt (s.apply s.last) first || Nat.blt last (s.apply s.first)

/-
  No code point to which a shift leads is moved by another: it
  stands outside of the run, or between its steps.
-/
def Shift.leadsPast (s t : Shift) : Bool :=
  s.misses t.first t.last
    || t.step == 2
      && (s.step == 2 || s.first == s.last)
      && (s.apply s.first + t.first) % 2 == 1

/-
  A shift moves no blanks and leads to none, nor to a code
  point that is no character, nor to the capital I with a dot.
-/
def Shift.keepsWords (s : Shift) : Bool :=
  decide (0 ≤ s.first + s.distance)
    && decide (s.last + s.distance < 0x110000)
    && ((0x130, 0x130) :: (0xD800, 0xDFFF) :: blankRanges).all
      (fun (first, last) => s.misses first last)
    && blankRanges.all
      (fun (first, last) => s.last < first || last < s.first)

theorem Shift.apply_eq (s : Shift) (n : Nat) :
    s.apply n = ((n : Int) + s.distance).toNat :=
  rfl

/- The code points that a shift moves are the steps of its run. -/
theorem Shift.exists_step_of_moves
    {s : Shift}
    {n : Nat}
    (h : s.moves n = true) :
    s.first ≤ n ∧ n ≤ s.last ∧ ∃ k, n = s.first + s.step * k := by
  simp only [Shift.moves, Bool.and_eq_true, decide_eq_true_eq,
    beq_iff_eq] at h
  rcases h with ⟨⟨hFirst, hLast⟩, hStep⟩
  refine ⟨hFirst, hLast, (n - s.first) / s.step, ?_⟩
  have hParts := Nat.div_add_mod (n - s.first) s.step
  omega

theorem Shift.not_mem_of_misses
    {s : Shift}
    {n first last : Nat}
    (hFirst : s.first ≤ n)
    (hLast : n ≤ s.last)
    (h : s.misses first last = true) :
    s.apply n < first ∨ last < s.apply n := by
  simp only [Shift.misses, Bool.or_eq_true, Nat.blt_eq,
    Shift.apply_eq] at h ⊢
  rcases h with hLess | hMore
  · left
    omega
  · right
    omega

theorem Shift.moves_apply_of_leadsPast
    {s t : Shift}
    {n : Nat}
    (hMoves : s.moves n = true)
    (hStart : 0 ≤ s.first + s.distance)
    (h : s.leadsPast t = true) :
    t.moves (s.apply n) = false := by
  rcases Shift.exists_step_of_moves hMoves with ⟨hFirst, hLast, k, hStep⟩
  simp only [Shift.leadsPast, Bool.or_eq_true, Bool.and_eq_true,
    beq_iff_eq] at h
  rw [Bool.eq_false_iff]
  intro hAgain
  rcases Shift.exists_step_of_moves hAgain with
    ⟨hFirst', hLast', k', hStep'⟩
  rcases h with hMisses | ⟨⟨hTwo, hSteps⟩, hOdd⟩
  · have hOutside := Shift.not_mem_of_misses hFirst hLast hMisses
    omega
  · rw [hTwo] at hStep'
    simp only [Shift.apply_eq] at hStep' hOdd
    rcases hSteps with hTwo' | hSingle
    · rw [hTwo'] at hStep
      omega
    · omega

theorem inRanges_eq_false
    {ranges : List (Nat × Nat)}
    {n : Nat}
    (h : ∀ r ∈ ranges, n < r.1 ∨ r.2 < n) :
    inRanges ranges n = false := by
  induction ranges with
  | nil => rfl
  | cons r ranges ih =>
      rcases r with ⟨first, last⟩
      have hHead := h (first, last) (by simp)
      have hTail := ih fun r hMem => h r (by simp [hMem])
      by_cases hBefore : n < first
      · simp [inRanges, hBefore]
      · have hAfter : ¬ n ≤ last := by
          simp only at hHead
          omega
        simp [inRanges, hBefore, hAfter, hTail]

/- The table of small letters has no chains and keeps to words. -/
theorem lowerShifts_sound
    {s : Shift}
    (hMem : s ∈ lowerShifts) :
    s.keepsWords = true ∧ ∀ t ∈ lowerShifts, s.leadsPast t = true := by
  have hWords : lowerShifts.all Shift.keepsWords = true := by
    decide +kernel
  have hChains :
      (lowerShifts.all fun s => lowerShifts.all s.leadsPast) = true := by
    decide +kernel
  constructor
  · exact List.all_eq_true.1 hWords s hMem
  · exact List.all_eq_true.1 (List.all_eq_true.1 hChains s hMem)

/- A moved character is no blank and moves to a settled one. -/
theorem settled_of_moved
    {c : Char}
    {s : Shift}
    (h : shiftOf? lowerShifts c.toNat = some s) :
    isBlank c = false ∧
      isBlank (lowerChar c) = false ∧ IsSettled (lowerChar c) := by
  have hMoves : s.moves c.toNat = true :=
    List.find?_some (p := fun t : Shift => t.moves c.toNat) h
  rcases Shift.exists_step_of_moves hMoves with ⟨hFirst, hLast, _⟩
  rcases lowerShifts_sound (List.mem_of_find?_eq_some h) with
    ⟨hWords, hPast⟩
  simp only [Shift.keepsWords, Bool.and_eq_true, decide_eq_true_eq,
    List.all_eq_true, Bool.or_eq_true] at hWords
  rcases hWords with ⟨⟨⟨hStart, hEnd⟩, hRanges⟩, hBlanks⟩
  have hOutside :
      ∀ r ∈ (0x130, 0x130) :: (0xD800, 0xDFFF) :: blankRanges,
        s.apply c.toNat < r.1 ∨ r.2 < s.apply c.toNat :=
    fun r hMem => Shift.not_mem_of_misses hFirst hLast (hRanges r hMem)
  have hDot := hOutside (0x130, 0x130) (by simp)
  have hSurrogate := hOutside (0xD800, 0xDFFF) (by simp)
  have hBound : s.apply c.toNat < 0x110000 := by
    simp only [Shift.apply_eq]
    omega
  have hValid : (s.apply c.toNat).isValidChar := by
    simp only at hSurrogate
    simp only [Nat.isValidChar]
    omega
  have hCode : (lowerChar c).toNat = s.apply c.toNat := by
    rw [lowerChar, shifted, h]
    change (Char.ofNat (s.apply c.toNat)).toNat = _
    rw [Char.ofNat, dif_pos hValid]
    rfl
  have hNone : shiftOf? lowerShifts (lowerChar c).toNat = none := by
    rw [shiftOf?, List.find?_eq_none]
    intro t hMem
    rw [hCode, Shift.moves_apply_of_leadsPast hMoves hStart (hPast t hMem)]
    simp
  refine ⟨?_, ?_, ?_, ?_, ?_⟩
  · apply inRanges_eq_false
    intro r hMem
    have hRun := hBlanks r hMem
    omega
  · rw [isBlank, hCode]
    exact inRanges_eq_false fun r hMem => hOutside r (by simp [hMem])
  · conv => lhs; rw [lowerChar, shifted, hNone]
  · intro hSigma
    rw [hSigma] at hNone
    revert hNone
    decide
  · intro hLetter
    rw [hLetter] at hCode
    simp only [← hCode] at hDot
    revert hDot
    decide

/- Small letters are settled, and blanks stay as they are. -/
theorem mem_lowerWithin
    {before after : List Char}
    {c d : Char}
    (h : d ∈ lowerWithin before c after) :
    IsSettled d ∧ isBlank d = isBlank c := by
  have hSigma : IsSettled 'ς' ∧ IsSettled 'σ' := by decide +kernel
  have hLetter : IsSettled 'i' ∧ IsSettled '\u0307' := by decide +kernel
  unfold lowerWithin at h
  by_cases hCapital : c = 'Σ'
  · subst hCapital
    rw [if_pos rfl] at h
    by_cases hEnd : endsWord before after = true
    · rw [if_pos hEnd, List.mem_singleton] at h
      subst h
      exact ⟨hSigma.1, by decide⟩
    · rw [if_neg hEnd, List.mem_singleton] at h
      subst h
      exact ⟨hSigma.2, by decide⟩
  · rw [if_neg hCapital] at h
    by_cases hDotted : c = 'İ'
    · subst hDotted
      rw [if_pos rfl] at h
      simp only [List.mem_cons, List.not_mem_nil, or_false] at h
      rcases h with rfl | rfl
      · exact ⟨hLetter.1, by decide⟩
      · exact ⟨hLetter.2, by decide⟩
    · rw [if_neg hDotted, List.mem_singleton] at h
      subst h
      cases hShift : shiftOf? lowerShifts c.toNat with
      | none =>
          have hSame : lowerChar c = c := by
            rw [lowerChar, shifted, hShift]
          rw [hSame]
          exact ⟨⟨hSame, hCapital, hDotted⟩, rfl⟩
      | some s =>
          rcases settled_of_moved hShift with ⟨hBlank, hBlank', hSettled⟩
          exact ⟨hSettled, by rw [hBlank, hBlank']⟩

theorem lowerWithin_ne_nil
    (before : List Char)
    (c : Char)
    (after : List Char) :
    lowerWithin before c after ≠ [] := by
  unfold lowerWithin
  repeat' split
  all_goals simp

/- A blank is its own small letter. -/
theorem lowerWithin_of_isBlank
    {c : Char}
    (h : isBlank c = true)
    (before after : List Char) :
    lowerWithin before c after = [c] := by
  have hCapital : c ≠ 'Σ' := by
    rintro rfl
    revert h
    decide
  have hDotted : c ≠ 'İ' := by
    rintro rfl
    revert h
    decide
  have hSame : lowerChar c = c := by
    cases hShift : shiftOf? lowerShifts c.toNat with
    | none => rw [lowerChar, shifted, hShift]
    | some s =>
        have hOther := (settled_of_moved hShift).1
        rw [h] at hOther
        simp at hOther
  rw [lowerWithin, if_neg hCapital, if_neg hDotted, hSame]

------------------------------------------------------------
-- Texts
------------------------------------------------------------

theorem mem_lowercaseFrom
    {before cs : List Char}
    {d : Char}
    (h : d ∈ lowercaseFrom before cs) :
    IsSettled d := by
  induction cs generalizing before with
  | nil => simp [lowercaseFrom] at h
  | cons c cs ih =>
      rw [lowercaseFrom, List.mem_append] at h
      rcases h with hHead | hTail
      · exact (mem_lowerWithin hHead).1
      · exact ih hTail

/- A text of settled characters stays as it is. -/
theorem lowercaseFrom_of_settled
    {cs : List Char}
    (h : ∀ c ∈ cs, IsSettled c)
    (before : List Char) :
    lowercaseFrom before cs = cs := by
  induction cs generalizing before with
  | nil => rfl
  | cons c cs ih =>
      rcases h c (by simp) with ⟨hLower, hCapital, hDotted⟩
      have hTail := ih (fun d hMem => h d (by simp [hMem])) (c :: before)
      rw [lowercaseFrom, lowerWithin, if_neg hCapital, if_neg hDotted,
        hLower, hTail]
      rfl

/- Small letters have no smaller ones. -/
theorem lowercase_lowercase (cs : List Char) :
    lowercase (lowercase cs) = lowercase cs :=
  lowercaseFrom_of_settled (fun _ hMem => mem_lowercaseFrom hMem) []

------------------------------------------------------------
-- Words
------------------------------------------------------------

/-
  The text is words with one space between any two of them;
  it may go on within a word.
-/
def isSpaced : (inWord : Bool) → List Char → Bool
| inWord, [] => inWord
| inWord, c :: cs =>
    if isBlank c then inWord && c == ' ' && isSpaced false cs
    else isSpaced true cs

theorem isSpaced_append
    {word : List Char}
    (hWord : ∀ c ∈ word, isBlank c = false)
    (hSome : word ≠ [])
    (inWord : Bool)
    (cs : List Char) :
    isSpaced inWord (word ++ cs) = isSpaced true cs := by
  induction word generalizing inWord with
  | nil => exact absurd rfl hSome
  | cons c word ih =>
      have hTail : ∀ d ∈ word, isBlank d = false :=
        fun d hMem => hWord d (by simp [hMem])
      have hHead := hWord c (by simp)
      rw [List.cons_append, isSpaced, hHead]
      cases word with
      | nil => rfl
      | cons d word => exact ih hTail (by simp) true

/- Small letters keep the words apart. -/
theorem isSpaced_lowercaseFrom
    {inWord : Bool}
    {cs : List Char}
    (h : isSpaced inWord cs = true)
    (before : List Char) :
    isSpaced inWord (lowercaseFrom before cs) = true := by
  induction cs generalizing inWord before with
  | nil => exact h
  | cons c cs ih =>
      rw [isSpaced] at h
      rw [lowercaseFrom]
      by_cases hBlank : isBlank c = true
      · rw [if_pos hBlank] at h
        simp only [Bool.and_eq_true] at h
        rw [lowerWithin_of_isBlank hBlank, List.singleton_append, isSpaced,
          if_pos hBlank, h.1.1, h.1.2, ih h.2]
        rfl
      · rw [if_neg hBlank] at h
        rw [isSpaced_append _ (lowerWithin_ne_nil _ _ _), ih h]
        intro d hMem
        rw [(mem_lowerWithin hMem).2]
        simpa using hBlank

/- The words of such a text, joined again, are the text. -/
theorem intercalate_wordsFrom
    {word cs : List Char}
    (h : isSpaced (!word.isEmpty) cs = true) :
    [' '].intercalate (wordsFrom word cs) = word ++ cs := by
  induction cs generalizing word with
  | nil =>
      rw [isSpaced] at h
      rw [wordsFrom]
      simp only [Bool.not_eq_true'] at h
      simp [h, List.intercalate]
  | cons c cs ih =>
      rw [isSpaced] at h
      rw [wordsFrom]
      by_cases hBlank : isBlank c = true
      · simp only [hBlank, ↓reduceIte, Bool.and_eq_true,
          Bool.not_eq_true', beq_iff_eq] at h
        rcases h with ⟨⟨hWord, rfl⟩, hRest⟩
        have hTail :
            [' '].intercalate (wordsFrom [] cs) = [] ++ cs :=
          ih hRest
        have hSome : wordsFrom [] cs ≠ [] := by
          intro hNone
          rw [hNone] at hTail
          have hNil : cs = [] := by simpa using hTail.symm
          rw [hNil] at hRest
          simp [isSpaced] at hRest
        simp only [hBlank, hWord, ↓reduceIte, Bool.false_eq_true]
        rw [List.intercalate_cons_of_ne_nil hSome, hTail,
          List.append_assoc]
        rfl
      · rw [if_neg hBlank] at h
        have hGoesOn : (!(word ++ [c]).isEmpty) = true := by simp
        rw [if_neg hBlank, ih (by rw [hGoesOn, h]), List.append_assoc]
        rfl

theorem mem_wordsFrom
    {word cs w : List Char}
    (hWord : ∀ c ∈ word, isBlank c = false)
    (h : w ∈ wordsFrom word cs) :
    w ≠ [] ∧ ∀ c ∈ w, isBlank c = false := by
  induction cs generalizing word with
  | nil =>
      rw [wordsFrom] at h
      by_cases hEmpty : word.isEmpty = true
      · simp [hEmpty] at h
      · rw [if_neg hEmpty, List.mem_singleton] at h
        subst h
        exact ⟨by simpa using hEmpty, hWord⟩
  | cons c cs ih =>
      rw [wordsFrom] at h
      by_cases hBlank : isBlank c = true
      · rw [if_pos hBlank] at h
        by_cases hEmpty : word.isEmpty = true
        · rw [if_pos hEmpty] at h
          exact ih (by simp) h
        · rw [if_neg hEmpty, List.mem_cons] at h
          rcases h with rfl | hRest
          · exact ⟨by simpa using hEmpty, hWord⟩
          · exact ih (by simp) hRest
      · rw [if_neg hBlank] at h
        apply ih _ h
        intro d hMem
        rw [List.mem_append, List.mem_singleton] at hMem
        rcases hMem with hOld | rfl
        · exact hWord d hOld
        · simpa using hBlank

/- Behind a text each word has a space before it. -/
theorem foldl_appendWord
    {cs : List Char}
    (hSome : cs ≠ [])
    (ws : List (List Char)) :
    ws.foldl appendWord cs = [' '].intercalate (cs :: ws) := by
  induction ws generalizing cs with
  | nil => simp [List.intercalate]
  | cons w ws ih =>
      have hNext : appendWord cs w = cs ++ ' ' :: w := by
        simp [appendWord, hSome]
      have hLonger : cs ++ ' ' :: w ≠ [] := by simp
      rw [List.foldl_cons, hNext, ih hLonger,
        List.intercalate_cons_of_ne_nil (List.cons_ne_nil w ws)]
      by_cases hLast : ws = []
      · subst hLast
        simp [List.intercalate]
      · rw [List.intercalate_cons_of_ne_nil hLast,
          List.intercalate_cons_of_ne_nil hLast]
        simp

/- No word is empty, so the words are joined by single spaces. -/
theorem normalizeBlanks_eq_intercalate (cs : List Char) :
    normalizeBlanks cs = [' '].intercalate (words cs) := by
  rw [normalizeBlanks]
  cases hWords : words cs with
  | nil => rfl
  | cons w ws =>
      have hMem : w ∈ words cs := by simp [hWords]
      have hSome : w ≠ [] := (mem_wordsFrom (by simp) hMem).1
      exact foldl_appendWord hSome ws

/- A normalised text is empty or such a text. -/
theorem normalizeBlanks_spaced (cs : List Char) :
    normalizeBlanks cs = [] ∨
      isSpaced false (normalizeBlanks cs) = true := by
  have hWords :
      ∀ w ∈ words cs, w ≠ [] ∧ ∀ c ∈ w, isBlank c = false :=
    fun w hMem => mem_wordsFrom (by simp) hMem
  rw [normalizeBlanks_eq_intercalate]
  generalize words cs = ws at hWords
  induction ws with
  | nil => exact .inl rfl
  | cons w ws ih =>
      rcases hWords w (by simp) with ⟨hSome, hChars⟩
      right
      by_cases hLast : ws = []
      · subst hLast
        have hText := isSpaced_append hChars hSome false []
        simpa [List.intercalate, isSpaced] using hText
      · rcases ih fun v hMem => hWords v (by simp [hMem]) with
          hEmpty | hRest
        · cases ws with
          | nil => exact absurd rfl hLast
          | cons v ws =>
              have hNext := (hWords v (by simp)).1
              cases ws with
              | nil =>
                  simp [List.intercalate] at hEmpty
                  exact absurd hEmpty hNext
              | cons u ws => simp [List.intercalate] at hEmpty
        · have hSpace : isBlank ' ' = true := by decide
          rw [List.intercalate_cons_of_ne_nil hLast, List.append_assoc,
            isSpaced_append hChars hSome, List.singleton_append,
            isSpaced, if_pos hSpace, hRest]
          rfl

/- A text of words with single spaces is normalised. -/
theorem normalizeBlanks_of_isSpaced
    {cs : List Char}
    (h : isSpaced false cs = true) :
    normalizeBlanks cs = cs := by
  rw [normalizeBlanks_eq_intercalate]
  exact @intercalate_wordsFrom [] cs h

/- Small letters of a normalised text are normalised. -/
theorem normalizeBlanks_lowercase (cs : List Char) :
    normalizeBlanks (lowercase (normalizeBlanks cs)) =
      lowercase (normalizeBlanks cs) := by
  rcases normalizeBlanks_spaced cs with hEmpty | hSpaced
  · rw [hEmpty]
    rfl
  · exact normalizeBlanks_of_isSpaced (isSpaced_lowercaseFrom hSpaced [])

/- A character that is no blank joins the first word, or the last one. -/
theorem isSpaced_cons
    {k : Char}
    (hJoins : isBlank k = false)
    {cs : List Char}
    (h : isSpaced false cs = true) :
    isSpaced false (k :: cs) = true := by
  rw [isSpaced, hJoins]
  cases cs with
  | nil => rfl
  | cons c cs =>
      rw [isSpaced] at h
      by_cases hBlank : isBlank c = true
      · simp [hBlank] at h
      · rw [if_neg hBlank] at h
        simpa [isSpaced, hBlank] using h

theorem isSpaced_concat
    {k : Char}
    (hJoins : isBlank k = false)
    {inWord : Bool}
    {cs : List Char}
    (h : isSpaced inWord cs = true) :
    isSpaced inWord (cs ++ [k]) = true := by
  induction cs generalizing inWord with
  | nil => simp [isSpaced, hJoins]
  | cons c cs ih =>
      rw [isSpaced] at h
      rw [List.cons_append, isSpaced]
      by_cases hBlank : isBlank c = true
      · rw [if_pos hBlank, Bool.and_eq_true] at h
        rw [if_pos hBlank, h.1, ih h.2]
        rfl
      · rw [if_neg hBlank] at h
        rw [if_neg hBlank, ih h]

end TreeQuery.Text
