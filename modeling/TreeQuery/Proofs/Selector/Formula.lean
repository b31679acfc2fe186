import TreeQuery.Proofs.Text.Ascii
import TreeQuery.Proofs.Text.Decimal
import TreeQuery.Selector.Formula

/-
  Formulas survive being written and read.

  Main statement:
    * `Formula.parse?_text`
-/

namespace TreeQuery.Formula

------------------------------------------------------------
-- Integers
------------------------------------------------------------

theorem fit?_toInt (n : Int32) : fit? n.toInt = some n := by
  have hLower := n.le_toInt
  have hUpper := n.toInt_lt
  have hFits : -2147483648 ≤ n.toInt ∧ n.toInt ≤ 2147483647 := by
    constructor
    · simpa using hLower
    · omega
  rw [fit?, if_pos hFits, Int32.ofInt_toInt]

/- The text of an integer is digits, after a minus if it is negative. -/
theorem toList_integerText (n : Int32) :
    (0 ≤ n.toInt ∧
        (integerText n).toList = (toString n.toInt.toNat).toList) ∨
      (n.toInt < 0 ∧
        (integerText n).toList =
          '-' :: (toString (-n.toInt).toNat).toList) := by
  unfold integerText
  rw [Int.toString_eq_repr, Int.repr_eq_if]
  by_cases hSign : 0 ≤ n.toInt
  · rw [if_pos hSign]
    exact .inl ⟨hSign, rfl⟩
  · rw [if_neg hSign]
    refine .inr ⟨by omega, ?_⟩
    rw [String.toList_append, Nat.toString_eq_repr]
    rfl

/- Digits without a sign are read as they are. -/
theorem readSigned?_of_isDigit
    {digits : List Char}
    (hDigits : ∀ c ∈ digits, c.isDigit = true) :
    readSigned? digits =
      (Text.readDigits? digits).bind fun n => fit? n := by
  unfold readSigned?
  split
  · next rest => simpa using hDigits '+'
  · next rest => simpa using hDigits '-'
  · rfl

theorem readSigned?_toString (n : Nat) :
    readSigned? (toString n).toList = fit? n := by
  rw [readSigned?_of_isDigit fun c hMem => Text.isDigit_of_mem_toString hMem,
    Text.readDigits?_toString, Option.bind_some]

theorem readSigned?_integerText (n : Int32) :
    readSigned? (integerText n).toList = some n := by
  rcases toList_integerText n with ⟨hSign, hText⟩ | ⟨hSign, hText⟩
  · rw [hText, readSigned?_toString, Int.toNat_of_nonneg hSign, fit?_toInt]
  · have hBack : -(((-n.toInt).toNat : Nat) : Int) = n.toInt := by omega
    rw [hText]
    simp only [readSigned?]
    rw [Text.readDigits?_toString, Option.bind_some, hBack, fit?_toInt]

/- Only digits and a minus stand in the text of an integer. -/
theorem mem_integerText
    {n : Int32}
    {c : Char}
    (h : c ∈ (integerText n).toList) :
    c = '-' ∨ c.isDigit = true := by
  rcases toList_integerText n with ⟨_, hText⟩ | ⟨_, hText⟩
  · rw [hText] at h
    exact .inr (Text.isDigit_of_mem_toString h)
  · rw [hText, List.mem_cons] at h
    rcases h with hMinus | hDigit
    · exact .inl hMinus
    · exact .inr (Text.isDigit_of_mem_toString hDigit)

------------------------------------------------------------
-- Coefficients
------------------------------------------------------------

/- The characters of a formula. -/
def isFormulaChar (c : Char) : Bool :=
  c.isDigit || c == '-' || c == '+' || c == 'n'

/- A step is read as a number, unless it is a sign alone. -/
theorem readStep?_of_readSigned?
    {cs : List Char}
    {n : Int32}
    (h : readSigned? cs = some n) :
    readStep? cs = some n := by
  unfold readStep?
  split
  · simp [readSigned?, Text.readDigits?] at h
  · simp [readSigned?, Text.readDigits?] at h
  · simp [readSigned?, Text.readDigits?] at h
  · exact h

/- What stands before the letter `n` writes the step. -/
theorem exists_stepText (step : Int32) :
    ∃ before,
      (stepText step).toList = before ++ ['n'] ∧
        (∀ c ∈ before, c = '-' ∨ c.isDigit = true) ∧
          readStep? before = some step := by
  unfold stepText
  by_cases hOne : step = 1
  · refine ⟨[], ?_, by simp, ?_⟩
    · simp [hOne]
    · simp [hOne, readStep?]
  · by_cases hMinus : step = -1
    · refine ⟨['-'], ?_, by simp, ?_⟩
      · simp [hMinus]
      · simp [hMinus, readStep?]
    · refine ⟨(integerText step).toList, ?_, ?_, ?_⟩
      · simp [hOne, hMinus]
      · intro c hMem
        exact mem_integerText hMem
      · exact readStep?_of_readSigned? (readSigned?_integerText step)

/- What stands after the letter `n` writes the offset. -/
theorem readOffset?_offsetText (offset : Int32) :
    readOffset? (offsetText offset).toList = some offset ∧
      ∀ c ∈ (offsetText offset).toList,
        c = '+' ∨ c = '-' ∨ c.isDigit = true := by
  unfold offsetText
  by_cases hZero : offset = 0
  · simp [hZero, readOffset?]
  · have hRead := readSigned?_integerText offset
    by_cases hPos : 0 < offset
    · have hSign : 0 ≤ offset.toInt :=
        Int32.le_iff_toInt_le.1 (Int32.le_of_lt hPos)
      rcases toList_integerText offset with ⟨_, hText⟩ | ⟨hNeg, _⟩
      · rw [if_neg hZero, if_pos hPos, String.toList_append]
        rw [hText, readSigned?_toString] at hRead
        constructor
        · rw [hText]
          change readOffset? ('+' :: (toString offset.toInt.toNat).toList) = _
          simp only [readOffset?, true_or, ↓reduceIte, readSigned?]
          rw [Text.readDigits?_toString]
          exact hRead
        · intro c hMem
          rw [List.mem_append] at hMem
          rcases hMem with hPlus | hMem
          · exact .inl (by simpa using hPlus)
          · exact .inr (mem_integerText hMem)
      · omega
    · rw [if_neg hZero, if_neg hPos]
      have hNeg : offset.toInt < 0 := by
        have hLess : ¬ 0 < offset.toInt := fun h =>
          hPos (Int32.lt_iff_toInt_lt.2 h)
        have hNotZero : offset.toInt ≠ 0 := fun h =>
          hZero (Int32.toInt_inj.1 h)
        omega
      constructor
      · rcases toList_integerText offset with ⟨hSign, _⟩ | ⟨_, hText⟩
        · omega
        · rw [hText] at hRead ⊢
          simpa [readOffset?] using hRead
      · intro c hMem
        exact .inr (mem_integerText hMem)

------------------------------------------------------------
-- Formulas
------------------------------------------------------------

/- A formula is written with the characters of formulas only. -/
theorem isFormulaChar_of_mem_text
    {f : Formula}
    {c : Char}
    (h : c ∈ f.text.toList) :
    isFormulaChar c = true := by
  unfold text at h
  by_cases hStep : f.step = 0
  · rw [if_pos hStep] at h
    rcases mem_integerText h with hMinus | hDigit
    · simp [isFormulaChar, hMinus]
    · simp [isFormulaChar, hDigit]
  · rw [if_neg hStep, String.toList_append, List.mem_append] at h
    rcases exists_stepText f.step with ⟨before, hText, hBefore, _⟩
    rw [hText, List.mem_append] at h
    rcases h with (hMem | hMem) | hMem
    · rcases hBefore c hMem with hMinus | hDigit
      · simp [isFormulaChar, hMinus]
      · simp [isFormulaChar, hDigit]
    · have hLetter : c = 'n' := by simpa using hMem
      simp [isFormulaChar, hLetter]
    · rcases (readOffset?_offsetText f.offset).2 c hMem with
        hPlus | hMinus | hDigit
      · simp [isFormulaChar, hPlus]
      · simp [isFormulaChar, hMinus]
      · simp [isFormulaChar, hDigit]

/- Formulas are written in small letters and without blanks. -/
theorem compact_of_isFormulaChar
    {c : Char}
    (h : isFormulaChar c = true) :
    Text.isBlank c = false ∧ c.toLower = c ∧ c ≠ 'o' ∧ c ≠ 'e' := by
  simp only [isFormulaChar, Bool.or_eq_true, beq_iff_eq] at h
  rcases h with ((hDigit | rfl) | rfl) | rfl
  · have hClass := Text.isBlank_of_isDigit hDigit
    refine ⟨hClass.1, hClass.2, ?_, ?_⟩
    · rintro rfl
      simp at hDigit
    · rintro rfl
      simp at hDigit
  · decide
  · decide
  · decide

/- A text of such characters is no word, and is divided to be read. -/
theorem readCompact?_of_isFormulaChar
    {cs : List Char}
    (h : ∀ c ∈ cs, isFormulaChar c = true) :
    readCompact? cs =
      match cs.span (· != 'n') with
      | (before, _ :: after) => do
          return ⟨← readStep? before, ← readOffset? after⟩
      | (digits, []) => do
          return ⟨0, ← readSigned? digits⟩ := by
  have hOdd : cs ≠ "odd".toList := by
    rintro rfl
    exact (compact_of_isFormulaChar (h 'o' (by decide))).2.2.1 rfl
  have hEven : cs ≠ "even".toList := by
    rintro rfl
    exact (compact_of_isFormulaChar (h 'e' (by decide))).2.2.2 rfl
  rw [readCompact?]
  exact (if_neg hOdd).trans (if_neg hEven)

/- It is read as it stands. -/
theorem parse?_of_isFormulaChar
    {s : String}
    (h : ∀ c ∈ s.toList, isFormulaChar c = true) :
    parse? s = readCompact? s.toList := by
  have hFilter : (s.toList.filter fun c => !Text.isBlank c) = s.toList := by
    rw [List.filter_eq_self]
    intro c hMem
    simp [(compact_of_isFormulaChar (h c hMem)).1]
  have hLower : Text.asciiLower s.toList = s.toList := by
    calc
      s.toList.map Char.toLower = s.toList.map id := by
        apply List.map_congr_left
        intro c hMem
        exact (compact_of_isFormulaChar (h c hMem)).2.1
      _ = s.toList := List.map_id _
  rw [parse?, hFilter, hLower]

/- The text of a formula writes that formula. -/
theorem parse?_text (f : Formula) : parse? f.text = some f := by
  have hNoLetter :
      ∀ {cs : List Char},
        (∀ c ∈ cs, c = '-' ∨ c.isDigit = true) → 'n' ∉ cs := by
    intro cs hChars hMem
    rcases hChars 'n' hMem with hMinus | hDigit
    · simp at hMinus
    · simp at hDigit
  have hChars : ∀ c ∈ f.text.toList, isFormulaChar c = true :=
    fun c => isFormulaChar_of_mem_text
  rw [parse?_of_isFormulaChar hChars, readCompact?_of_isFormulaChar hChars]
  rcases f with ⟨step, offset⟩
  by_cases hStep : step = 0
  · have hText : (⟨step, offset⟩ : Formula).text = integerText offset := by
      simp [text, hStep]
    have hSpan :=
      (Text.span_of_not_mem
        (hNoLetter fun c => mem_integerText (n := offset)) []).2
    rw [hText, hSpan]
    simp [readSigned?_integerText, hStep]
  · rcases exists_stepText step with ⟨before, hBefore, hChars, hRead⟩
    have hText :
        (⟨step, offset⟩ : Formula).text.toList =
          before ++ 'n' :: (offsetText offset).toList := by
      simp [text, hStep, hBefore]
    have hSpan := (Text.span_of_not_mem (hNoLetter hChars)
      (offsetText offset).toList).1
    rw [hText, hSpan]
    simp [hRead, (readOffset?_offsetText offset).1]

end TreeQuery.Formula
