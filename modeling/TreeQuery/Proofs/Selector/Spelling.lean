import TreeQuery.Proofs.Selector.Formula
import TreeQuery.Proofs.Text.Gap

/-
  The texts that spell a formula, and those that are read.

  A formula is spelled as a word with blanks around it, or as
  words with signs between them and blanks around either.  A
  text is read as what it spells without its blanks, wherever
  these stand.  So every formula that is spelled is read, and
  what is read is spelled exactly if the blanks within the
  text stand beside signs.

  Key definitions include:
    * `Formula.IsSigned`
    * `Formula.Spells`
    * `Formula.IsSpelling`

  Main statements:
    * `Formula.readCompact?_eq_some_iff`
    * `Formula.spells_iff`
    * `Formula.read_texts_are_spelled_iff`
-/

namespace TreeQuery.Formula

open Text

------------------------------------------------------------
-- Spelling
------------------------------------------------------------

/- A sign that may stand before a number. -/
def isSign (c : Char) : Bool :=
  c == '+' || c == '-'

/- Decimal digits, one at least. -/
def IsNumeral (digits : List Char) : Prop :=
  digits ≠ [] ∧ ∀ c ∈ digits, c.isDigit = true

/- The factor that a sign stands for. -/
inductive StandsFor : Char → Int → Prop
| plus : StandsFor '+' 1
| minus : StandsFor '-' (-1)

/- A sign and a word, with blanks before, between and behind. -/
inductive IsSigned (word : List Char) : Int → List Char → Prop
| mk {sign : Char} {factor : Int} {blanks text : List Char}
    (hSign : StandsFor sign factor)
    (hBlanks : AreBlanks blanks)
    (hWord : IsPadded word text) :
    IsSigned word factor (blanks ++ sign :: text)

/- A word with or without a sign. -/
inductive MayBeSigned (word : List Char) : Int → List Char → Prop
| bare {text : List Char} (hWord : IsPadded word text) :
    MayBeSigned word 1 text
| signed {factor : Int} {text : List Char}
    (hSigned : IsSigned word factor text) :
    MayBeSigned word factor text

/- What the digits before the letter `n` count; none count one. -/
def stepCount (digits : List Char) : Int :=
  if digits = [] then 1 else digitsValue digits

/- The text behind the letter `n`, if any, spells the offset. -/
inductive SpellsOffset : List Char → Int32 → Prop
| missing : SpellsOffset [] 0
| signed {digits text : List Char} {factor : Int} {offset : Int32}
    (hDigits : IsNumeral digits)
    (hText : IsSigned digits factor text)
    (hValue : offset.toInt = factor * digitsValue digits) :
    SpellsOffset text offset

/- The texts in small letters that spell a formula. -/
inductive Spells : List Char → Formula → Prop
| odd {text : List Char} (hWord : IsPadded "odd".toList text) :
    Spells text ⟨2, 1⟩
| even {text : List Char} (hWord : IsPadded "even".toList text) :
    Spells text ⟨2, 0⟩
| integer {digits text : List Char} {factor : Int} {offset : Int32}
    (hDigits : IsNumeral digits)
    (hText : MayBeSigned digits factor text)
    (hValue : offset.toInt = factor * digitsValue digits) :
    Spells text ⟨0, offset⟩
| linear {digits before after : List Char} {factor : Int}
    {step offset : Int32}
    (hDigits : ∀ c ∈ digits, c.isDigit = true)
    (hBefore : MayBeSigned (digits ++ ['n']) factor before)
    (hCount : step.toInt = factor * stepCount digits)
    (hAfter : SpellsOffset after offset) :
    Spells (before ++ after) ⟨step, offset⟩

/- The text spells the formula, up to the case of letters. -/
def IsSpelling (s : String) (f : Formula) : Prop :=
  Spells (asciiLower s.toList) f

------------------------------------------------------------
-- Characters
------------------------------------------------------------

theorem StandsFor.isSign
    {sign : Char}
    {factor : Int}
    (h : StandsFor sign factor) :
    isSign sign = true ∧ isBlank sign = false := by
  cases h with
  | plus => decide
  | minus => decide

theorem isSign_of_isDigit
    {c : Char}
    (h : c.isDigit = true) :
    isSign c = false := by
  rw [Bool.eq_false_iff]
  intro hSign
  simp only [isSign, Bool.or_eq_true, beq_iff_eq] at hSign
  rcases hSign with rfl | rfl
  · revert h
    decide
  · revert h
    decide

/- Blanks and signs have one case only. -/
theorem toLower_plain (c : Char) :
    isBlank c.toLower = isBlank c ∧ isSign c.toLower = isSign c := by
  by_cases hAscii : c.toNat < 128
  · have hAll :
        (List.range 128).all fun n =>
          isBlank (Char.ofNat n).toLower == isBlank (Char.ofNat n)
            && isSign (Char.ofNat n).toLower == isSign (Char.ofNat n) := by
      decide +kernel
    have hCase :=
      forall_ascii (p := fun c =>
        isBlank c.toLower == isBlank c && isSign c.toLower == isSign c)
        hAll hAscii
    simpa using hCase
  · rw [toLower_of_not_ascii hAscii]
    exact ⟨rfl, rfl⟩

/- The digits of a number are no signs. -/
theorem isSign_of_mem_digits
    {digits : List Char}
    (h : ∀ c ∈ digits, c.isDigit = true) :
    ∀ c ∈ digits, isSign c = false := fun c hMem =>
  isSign_of_isDigit (h c hMem)

/- The two words hold neither blanks nor signs. -/
theorem plain_of_mem_word
    {c : Char}
    (h : c ∈ "odd".toList ∨ c ∈ "even".toList) :
    isBlank c = false ∧ isSign c = false := by
  have hAll :
      ("odd".toList ++ "even".toList).all fun c =>
        !isBlank c && !isSign c := by
    decide
  simpa using List.all_eq_true.1 hAll c (List.mem_append.2 h)

------------------------------------------------------------
-- Texts without Blanks
------------------------------------------------------------

section Compact

variable {word text : List Char} {factor : Int}

/- A sign right before a word. -/
theorem StandsFor.isSigned
    {sign : Char}
    (hSign : StandsFor sign factor)
    (hWord : IsPadded word text) :
    IsSigned word factor (sign :: text) := by
  have hSigned := IsSigned.mk hSign .nil hWord
  rwa [List.nil_append] at hSigned

/- Without blanks a signed word is a sign and the word. -/
theorem isSigned_iff (hText : ∀ c ∈ text, isBlank c = false) :
    IsSigned word factor text ↔
      ∃ sign, StandsFor sign factor ∧ text = sign :: word := by
  constructor
  · intro h
    cases h with
    | @mk sign _ blanks rest hSign hBlanks hPadded =>
        have hNone : blanks = [] :=
          hBlanks.eq_nil fun c hMem => hText c (by simp [hMem])
        have hWord : rest = word :=
          (isPadded_iff_of_unblank fun c hMem =>
            hText c (by simp [hMem])).1 hPadded
        rw [hNone, hWord]
        exact ⟨sign, hSign, rfl⟩
  · rintro ⟨sign, hSign, rfl⟩
    exact hSign.isSigned (isPadded_self word)

theorem mayBeSigned_iff (hText : ∀ c ∈ text, isBlank c = false) :
    MayBeSigned word factor text ↔
      (factor = 1 ∧ text = word) ∨
        ∃ sign, StandsFor sign factor ∧ text = sign :: word := by
  rw [← isSigned_iff hText]
  constructor
  · intro h
    cases h with
    | bare hWord =>
        exact .inl ⟨rfl, (isPadded_iff_of_unblank hText).1 hWord⟩
    | signed hSigned => exact .inr hSigned
  · rintro (⟨rfl, rfl⟩ | hSigned)
    · exact .bare (isPadded_self text)
    · exact .signed hSigned

------------------------------------------------------------
-- Numbers
------------------------------------------------------------

theorem fit?_eq_some_iff
    {value : Int}
    {n : Int32} :
    fit? value = some n ↔ n.toInt = value := by
  constructor
  · intro h
    unfold fit? at h
    split at h
    · next hFits =>
        cases h
        exact Int32.toInt_ofInt_of_le (by omega) (by omega)
    · cases h
  · rintro rfl
    exact fit?_toInt n

theorem readDigits?_eq_some_iff
    {digits : List Char}
    {value : Nat} :
    readDigits? digits = some value ↔
      IsNumeral digits ∧ digitsValue digits = value := by
  unfold readDigits? IsNumeral
  cases digits with
  | nil => simp
  | cons c digits => simp

/- A number is read if it fits with the factor before it. -/
theorem readNumber_eq_some_iff
    {digits : List Char}
    {n : Int32} :
    ((readDigits? digits).bind fun value => fit? (factor * value)) =
        some n ↔
      IsNumeral digits ∧ n.toInt = factor * digitsValue digits := by
  rw [Option.bind_eq_some_iff]
  constructor
  · rintro ⟨value, hRead, hFit⟩
    rcases readDigits?_eq_some_iff.1 hRead with ⟨hNumeral, rfl⟩
    exact ⟨hNumeral, fit?_eq_some_iff.1 hFit⟩
  · rintro ⟨hNumeral, hValue⟩
    exact ⟨digitsValue digits, readDigits?_eq_some_iff.2 ⟨hNumeral, rfl⟩,
      fit?_eq_some_iff.2 hValue⟩

/- A sign stands for the factor that it puts before a number. -/
theorem StandsFor.readSigned?_cons
    {sign : Char}
    (hSign : StandsFor sign factor)
    (digits : List Char) :
    readSigned? (sign :: digits) =
      (readDigits? digits).bind fun value => fit? (factor * value) := by
  cases hSign with
  | plus => simp only [readSigned?, Int.one_mul]
  | minus => simp only [readSigned?, Int.neg_one_mul]

/- A text without a sign is read as a number alone. -/
theorem readSigned?_cases (text : List Char) :
    (∃ sign factor digits,
        StandsFor sign factor ∧ text = sign :: digits) ∨
      readSigned? text =
        (readDigits? text).bind fun value => fit? (1 * value) := by
  simp only [Int.one_mul]
  unfold readSigned?
  split
  · next digits => exact .inl ⟨'+', 1, digits, .plus, rfl⟩
  · next digits => exact .inl ⟨'-', -1, digits, .minus, rfl⟩
  · exact .inr rfl

theorem readSigned?_eq_some_iff
    (hText : ∀ c ∈ text, isBlank c = false)
    {n : Int32} :
    readSigned? text = some n ↔
      ∃ digits factor, IsNumeral digits ∧
        MayBeSigned digits factor text ∧
          n.toInt = factor * digitsValue digits := by
  constructor
  · intro h
    rcases readSigned?_cases text with
      ⟨sign, factor, digits, hSign, rfl⟩ | hBare
    · rw [hSign.readSigned?_cons, readNumber_eq_some_iff] at h
      exact ⟨digits, factor, h.1,
        .signed (hSign.isSigned (isPadded_self digits)), h.2⟩
    · rw [hBare, readNumber_eq_some_iff] at h
      exact ⟨text, 1, h.1, .bare (isPadded_self text), h.2⟩
  · rintro ⟨digits, factor, hNumeral, hSigned, hValue⟩
    have hRead := readNumber_eq_some_iff.2 ⟨hNumeral, hValue⟩
    rcases (mayBeSigned_iff hText).1 hSigned with
      ⟨rfl, rfl⟩ | ⟨sign, hSign, rfl⟩
    · rw [readSigned?_of_isDigit hNumeral.2]
      simpa only [Int.one_mul] using hRead
    · rw [hSign.readSigned?_cons, hRead]

------------------------------------------------------------
-- Coefficients
------------------------------------------------------------

theorem stepCount_of_isNumeral
    {digits : List Char}
    (h : IsNumeral digits) :
    stepCount digits = digitsValue digits :=
  if_neg h.1

/- A letter behind a signed word belongs to the word. -/
theorem mayBeSigned_concat_iff
    (hText : ∀ c ∈ text, isBlank c = false) :
    MayBeSigned (word ++ ['n']) factor (text ++ ['n']) ↔
      MayBeSigned word factor text := by
  have hLetter : ∀ c ∈ text ++ ['n'], isBlank c = false :=
    List.forall_mem_append.2
      ⟨hText, List.forall_mem_singleton.2 (by decide)⟩
  simp only [mayBeSigned_iff hText, mayBeSigned_iff hLetter,
    ← List.cons_append, List.append_cancel_right_eq]

/- A number, or a sign alone, stands before the letter `n`. -/
theorem readStep?_eq_some_iff
    (hText : ∀ c ∈ text, isBlank c = false)
    {n : Int32} :
    readStep? text = some n ↔
      ∃ digits factor, (∀ c ∈ digits, c.isDigit = true) ∧
        MayBeSigned digits factor text ∧
          n.toInt = factor * stepCount digits := by
  constructor
  · intro h
    unfold readStep? at h
    split at h
    · cases h
      exact ⟨[], 1, by simp, .bare (isPadded_self []), rfl⟩
    · cases h
      exact ⟨[], 1, by simp,
        (mayBeSigned_iff hText).2 (.inr ⟨'+', .plus, rfl⟩), rfl⟩
    · cases h
      exact ⟨[], -1, by simp,
        (mayBeSigned_iff hText).2 (.inr ⟨'-', .minus, rfl⟩), rfl⟩
    · rcases (readSigned?_eq_some_iff hText).1 h with
        ⟨digits, factor, hNumeral, hSigned, hValue⟩
      refine ⟨digits, factor, hNumeral.2, hSigned, ?_⟩
      rw [stepCount_of_isNumeral hNumeral, hValue]
  · rintro ⟨digits, factor, hDigits, hSigned, hValue⟩
    by_cases hNone : digits = []
    · rw [hNone, stepCount, if_pos rfl, Int.mul_one] at hValue
      rw [hNone] at hSigned
      rcases (mayBeSigned_iff hText).1 hSigned with
        ⟨rfl, rfl⟩ | ⟨sign, hSign, rfl⟩
      · rw [readStep?, Option.some.injEq, ← Int32.toInt_inj, hValue]
        rfl
      · cases hSign with
        | plus =>
            rw [readStep?, Option.some.injEq, ← Int32.toInt_inj, hValue]
            rfl
        | minus =>
            rw [readStep?, Option.some.injEq, ← Int32.toInt_inj, hValue]
            rfl
    · have hNumeral : IsNumeral digits := ⟨hNone, hDigits⟩
      have hRead :=
        (readSigned?_eq_some_iff hText).2
          ⟨digits, factor, hNumeral, hSigned,
            by rw [hValue, stepCount_of_isNumeral hNumeral]⟩
      exact readStep?_of_readSigned? hRead

/- A number with a sign may stand behind it. -/
theorem readOffset?_eq_some_iff
    (hText : ∀ c ∈ text, isBlank c = false)
    {n : Int32} :
    readOffset? text = some n ↔ SpellsOffset text n := by
  constructor
  · intro h
    unfold readOffset? at h
    split at h
    · cases h
      exact .missing
    · next c cs =>
        split at h
        · next hSign =>
            rcases (readSigned?_eq_some_iff hText).1 h with
              ⟨digits, factor, hNumeral, hSigned, hValue⟩
            cases hSigned with
            | bare hWord =>
                have hSame := (isPadded_iff_of_unblank hText).1 hWord
                have hDigit := hNumeral.2 c (by simp [← hSame])
                have hPlain := isSign_of_isDigit hDigit
                rcases hSign with rfl | rfl
                · cases hPlain
                · cases hPlain
            | signed hSigned => exact .signed hNumeral hSigned hValue
        · cases h
  · intro h
    cases h with
    | missing => rfl
    | signed hNumeral hSigned hValue =>
        have hRead :=
          (readSigned?_eq_some_iff hText).2
            ⟨_, _, hNumeral, .signed hSigned, hValue⟩
        rcases (isSigned_iff hText).1 hSigned with ⟨sign, hSign, rfl⟩
        cases hSign with
        | plus => rwa [readOffset?, if_pos (.inl rfl)]
        | minus => rwa [readOffset?, if_pos (.inr rfl)]

------------------------------------------------------------
-- Formulas
------------------------------------------------------------

theorem isFormulaChar_of_isDigit
    {c : Char}
    (h : c.isDigit = true) :
    isFormulaChar c = true := by
  simp [isFormulaChar, h]

/- A sign is a character of formulas, as those of the word may be. -/
theorem MayBeSigned.areFormulaChars
    (h : MayBeSigned word factor text)
    (hText : ∀ c ∈ text, isBlank c = false)
    (hWord : ∀ c ∈ word, isFormulaChar c = true) :
    ∀ c ∈ text, isFormulaChar c = true := by
  rcases (mayBeSigned_iff hText).1 h with
    ⟨_, rfl⟩ | ⟨sign, hSign, rfl⟩
  · exact hWord
  · intro c hMem
    rcases List.mem_cons.1 hMem with rfl | hMem
    · cases hSign with
      | plus => decide
      | minus => decide
    · exact hWord c hMem

theorem SpellsOffset.areFormulaChars
    {n : Int32}
    (h : SpellsOffset text n)
    (hText : ∀ c ∈ text, isBlank c = false) :
    ∀ c ∈ text, isFormulaChar c = true := by
  cases h with
  | missing => simp
  | signed hDigits hSigned hValue =>
      exact (MayBeSigned.signed hSigned).areFormulaChars hText
        fun c hMem => isFormulaChar_of_isDigit (hDigits.2 c hMem)

/- The letter `n` is neither a digit nor a sign. -/
theorem MayBeSigned.not_mem
    {digits : List Char}
    (h : MayBeSigned digits factor text)
    (hText : ∀ c ∈ text, isBlank c = false)
    (hDigits : ∀ c ∈ digits, c.isDigit = true) :
    'n' ∉ text := by
  have hNoDigit : 'n' ∉ digits := fun hMem => by
    simpa using hDigits 'n' hMem
  rcases (mayBeSigned_iff hText).1 h with
    ⟨_, rfl⟩ | ⟨sign, hSign, rfl⟩
  · exact hNoDigit
  · cases hSign with
    | plus => simpa using hNoDigit
    | minus => simpa using hNoDigit

/- What is spelled without blanks is read. -/
theorem readCompact?_of_spells
    {f : Formula}
    (hText : ∀ c ∈ text, isBlank c = false)
    (h : Spells text f) :
    readCompact? text = some f := by
  cases h with
  | odd hWord =>
      rw [(isPadded_iff_of_unblank hText).1 hWord]
      decide
  | even hWord =>
      rw [(isPadded_iff_of_unblank hText).1 hWord]
      decide
  | @integer digits _ factor offset hDigits hSigned hValue =>
      have hChars :=
        hSigned.areFormulaChars hText
          fun c hMem => isFormulaChar_of_isDigit (hDigits.2 c hMem)
      have hRead :=
        (readSigned?_eq_some_iff hText).2
          ⟨digits, factor, hDigits, hSigned, hValue⟩
      have hSpan :=
        (span_of_not_mem (hSigned.not_mem hText hDigits.2) []).2
      rw [readCompact?_of_isFormulaChar hChars, hSpan]
      simp [hRead]
  | @linear digits before after factor step offset hDigits hBefore hCount
      hAfter =>
      rcases List.forall_mem_append.1 hText with ⟨hBeforeText, hAfterText⟩
      have hWord : ∀ c ∈ digits ++ ['n'], isFormulaChar c = true :=
        List.forall_mem_append.2
          ⟨fun c hMem => isFormulaChar_of_isDigit (hDigits c hMem),
            List.forall_mem_singleton.2 (by decide)⟩
      have hChars : ∀ c ∈ before ++ after, isFormulaChar c = true :=
        List.forall_mem_append.2
          ⟨hBefore.areFormulaChars hBeforeText hWord,
            hAfter.areFormulaChars hAfterText⟩
      have hLetter : ∃ front, before = front ++ ['n'] := by
        rcases (mayBeSigned_iff hBeforeText).1 hBefore with
          ⟨_, rfl⟩ | ⟨sign, _, rfl⟩
        · exact ⟨digits, rfl⟩
        · exact ⟨sign :: digits, rfl⟩
      rcases hLetter with ⟨front, rfl⟩
      have hFrontText := (List.forall_mem_append.1 hBeforeText).1
      have hFront := (mayBeSigned_concat_iff hFrontText).1 hBefore
      have hStep :=
        (readStep?_eq_some_iff hFrontText).2
          ⟨digits, factor, hDigits, hFront, hCount⟩
      have hOffset := (readOffset?_eq_some_iff hAfterText).2 hAfter
      have hSpan :=
        (span_of_not_mem (hFront.not_mem hFrontText hDigits) after).1
      rw [readCompact?_of_isFormulaChar hChars, List.append_assoc,
        List.singleton_append, hSpan]
      simp [hStep, hOffset]

/- What is read without blanks is spelled. -/
theorem spells_of_readCompact?
    {f : Formula}
    (hText : ∀ c ∈ text, isBlank c = false)
    (h : readCompact? text = some f) :
    Spells text f := by
  unfold readCompact? at h
  split at h
  · next hOdd =>
      cases h
      rw [hOdd]
      exact .odd (isPadded_self _)
  · split at h
    · next hEven =>
        cases h
        rw [hEven]
        exact .even (isPadded_self _)
    · by_cases hLetter : 'n' ∈ text
      · rcases List.eq_append_cons_of_mem hLetter with
          ⟨front, after, rfl, hFirst⟩
        rcases List.forall_mem_append.1 hText with ⟨hFrontText, hRestText⟩
        have hAfterText := (List.forall_mem_cons.1 hRestText).2
        rw [(span_of_not_mem hFirst after).1] at h
        rcases Option.bind_eq_some_iff.1 h with ⟨step, hStep, hRest⟩
        rcases Option.bind_eq_some_iff.1 hRest with
          ⟨offset, hOffset, hFormula⟩
        cases hFormula
        rcases (readStep?_eq_some_iff hFrontText).1 hStep with
          ⟨digits, factor, hDigits, hFront, hCount⟩
        have hSpelled :=
          Spells.linear hDigits ((mayBeSigned_concat_iff hFrontText).2 hFront)
            hCount ((readOffset?_eq_some_iff hAfterText).1 hOffset)
        rwa [List.append_assoc, List.singleton_append] at hSpelled
      · rw [(span_of_not_mem hLetter []).2] at h
        rcases Option.bind_eq_some_iff.1 h with ⟨offset, hRead, hFormula⟩
        cases hFormula
        rcases (readSigned?_eq_some_iff hText).1 hRead with
          ⟨digits, factor, hDigits, hSigned, hValue⟩
        exact .integer hDigits hSigned hValue

theorem readCompact?_eq_some_iff
    {f : Formula}
    (hText : ∀ c ∈ text, isBlank c = false) :
    readCompact? text = some f ↔ Spells text f :=
  ⟨spells_of_readCompact? hText, readCompact?_of_spells hText⟩

end Compact

------------------------------------------------------------
-- Leaving Blanks Out
------------------------------------------------------------

section Blanks

variable {word text : List Char} {factor : Int}

/- Blanks around a sign and a word are not needed. -/
theorem IsSigned.withoutBlanks
    (h : IsSigned word factor text)
    (hWord : ∀ c ∈ word, isBlank c = false) :
    IsSigned word factor (withoutBlanks text) := by
  cases h with
  | mk hSign hBlanks hPadded =>
      rw [withoutBlanks_append, withoutBlanks_eq_nil_iff.2 hBlanks,
        withoutBlanks_cons_of_not hSign.isSign.2]
      exact hSign.isSigned (hPadded.withoutBlanks hWord)

theorem MayBeSigned.withoutBlanks
    (h : MayBeSigned word factor text)
    (hWord : ∀ c ∈ word, isBlank c = false) :
    MayBeSigned word factor (withoutBlanks text) := by
  cases h with
  | bare hPadded => exact .bare (hPadded.withoutBlanks hWord)
  | signed hSigned => exact .signed (hSigned.withoutBlanks hWord)

/- Their gaps touch the sign. -/
theorem IsSigned.gapsTouch
    (h : IsSigned word factor text)
    (hWord : ∀ c ∈ word, isBlank c = false)
    {front : List Char}
    (hFront : GapsTouch isSign front) :
    GapsTouch isSign (front ++ text) := by
  cases h with
  | mk hSign hBlanks hPadded =>
      rw [← List.append_assoc]
      exact (hFront.append_blanks hBlanks).join (hPadded.gapsTouch hWord)
        hSign.isSign.1 hSign.isSign.2

theorem gapsTouch_nil : GapsTouch isSign [] :=
  .of_unblank (by simp)

theorem MayBeSigned.gapsTouch
    (h : MayBeSigned word factor text)
    (hWord : ∀ c ∈ word, isBlank c = false) :
    GapsTouch isSign text := by
  cases h with
  | bare hPadded => exact hPadded.gapsTouch hWord
  | signed hSigned => exact hSigned.gapsTouch hWord gapsTouch_nil

/- Digits, with the letter `n` or without it, hold no blanks. -/
theorem unblank_of_digits
    {digits : List Char}
    (h : ∀ c ∈ digits, c.isDigit = true) :
    ∀ c ∈ digits, isBlank c = false := fun c hMem =>
  (isBlank_of_isDigit (h c hMem)).1

theorem unblank_of_digits_concat
    {digits : List Char}
    (h : ∀ c ∈ digits, c.isDigit = true) :
    ∀ c ∈ digits ++ ['n'], isBlank c = false :=
  List.forall_mem_append.2
    ⟨unblank_of_digits h, List.forall_mem_singleton.2 (by decide)⟩

/- A spelling without its blanks spells the same formula. -/
theorem Spells.withoutBlanks
    {f : Formula}
    (h : Spells text f) :
    Spells (withoutBlanks text) f := by
  cases h with
  | odd hPadded =>
      exact .odd
        (hPadded.withoutBlanks fun c hMem =>
          (plain_of_mem_word (.inl hMem)).1)
  | even hPadded =>
      exact .even
        (hPadded.withoutBlanks fun c hMem =>
          (plain_of_mem_word (.inr hMem)).1)
  | integer hDigits hSigned hValue =>
      exact .integer hDigits
        (hSigned.withoutBlanks (unblank_of_digits hDigits.2)) hValue
  | linear hDigits hBefore hCount hAfter =>
      rw [withoutBlanks_append]
      refine .linear hDigits
        (hBefore.withoutBlanks (unblank_of_digits_concat hDigits)) hCount ?_
      cases hAfter with
      | missing => exact .missing
      | signed hOffset hSigned hValue =>
          exact .signed hOffset
            (hSigned.withoutBlanks (unblank_of_digits hOffset.2)) hValue

/- Its blanks stand around the whole or beside signs. -/
theorem Spells.gapsTouch
    {f : Formula}
    (h : Spells text f) :
    GapsTouch isSign text := by
  cases h with
  | odd hPadded =>
      exact hPadded.gapsTouch fun c hMem =>
        (plain_of_mem_word (.inl hMem)).1
  | even hPadded =>
      exact hPadded.gapsTouch fun c hMem =>
        (plain_of_mem_word (.inr hMem)).1
  | integer hDigits hSigned hValue =>
      exact hSigned.gapsTouch (unblank_of_digits hDigits.2)
  | linear hDigits hBefore hCount hAfter =>
      have hFront := hBefore.gapsTouch (unblank_of_digits_concat hDigits)
      cases hAfter with
      | missing => rwa [List.append_nil]
      | signed hOffset hSigned hValue =>
          exact hSigned.gapsTouch (unblank_of_digits hOffset.2) hFront

------------------------------------------------------------
-- Putting Blanks In
------------------------------------------------------------

variable (hGaps : GapsTouch isSign text)
include hGaps

/- Where gaps touch signs, they are around words without signs. -/
theorem isPadded_of_withoutBlanks
    (hPlain : ∀ c ∈ word, isSign c = false)
    (h : withoutBlanks text = word) :
    IsPadded word text := by
  subst h
  exact hGaps.isPadded hPlain

/- A sign is found again, with the blanks before it. -/
theorem isSigned_of_withoutBlanks
    (hPlain : ∀ c ∈ word, isSign c = false)
    (h : IsSigned word factor (withoutBlanks text)) :
    IsSigned word factor text := by
  rcases (isSigned_iff fun c => isBlank_of_mem_withoutBlanks).1 h with
    ⟨sign, hSign, hText⟩
  rcases withoutBlanks_eq_cons hText with
    ⟨gap, later, hBlanks, rfl, hWord⟩
  have hPart : later <:+: gap ++ sign :: later :=
    ⟨gap ++ [sign], [], by simp⟩
  exact .mk hSign hBlanks
    (isPadded_of_withoutBlanks (hGaps.of_infix hPart) hPlain hWord)

theorem mayBeSigned_of_withoutBlanks
    (hPlain : ∀ c ∈ word, isSign c = false)
    (h : MayBeSigned word factor (withoutBlanks text)) :
    MayBeSigned word factor text := by
  cases h with
  | bare hPadded =>
      have hWord :=
        (isPadded_iff_of_unblank fun c => isBlank_of_mem_withoutBlanks).1
          hPadded
      exact .bare (isPadded_of_withoutBlanks hGaps hPlain hWord)
  | signed hSigned =>
      exact .signed (isSigned_of_withoutBlanks hGaps hPlain hSigned)

/- What is spelled without the blanks is spelled with them. -/
theorem spells_of_withoutBlanks
    {f : Formula}
    (h : Spells (withoutBlanks text) f) :
    Spells text f := by
  have hCompact : ∀ c ∈ withoutBlanks text, isBlank c = false :=
    fun c => isBlank_of_mem_withoutBlanks
  generalize hText : withoutBlanks text = compact at h hCompact
  cases h with
  | odd hPadded =>
      rw [(isPadded_iff_of_unblank hCompact).1 hPadded] at hText
      have hPlain : ∀ c ∈ "odd".toList, isSign c = false := fun c hMem =>
        (plain_of_mem_word (.inl hMem)).2
      exact .odd (isPadded_of_withoutBlanks hGaps hPlain hText)
  | even hPadded =>
      rw [(isPadded_iff_of_unblank hCompact).1 hPadded] at hText
      have hPlain : ∀ c ∈ "even".toList, isSign c = false := fun c hMem =>
        (plain_of_mem_word (.inr hMem)).2
      exact .even (isPadded_of_withoutBlanks hGaps hPlain hText)
  | integer hDigits hSigned hValue =>
      rw [← hText] at hSigned
      exact .integer hDigits
        (mayBeSigned_of_withoutBlanks hGaps
          (isSign_of_mem_digits hDigits.2) hSigned) hValue
  | @linear digits before after factor step offset hDigits hBefore hCount
      hAfter =>
      have hPlain : ∀ c ∈ digits ++ ['n'], isSign c = false :=
        List.forall_mem_append.2
          ⟨isSign_of_mem_digits hDigits,
            List.forall_mem_singleton.2 (by decide)⟩
      cases hAfter with
      | missing =>
          rw [List.append_nil] at hText
          rw [← hText] at hBefore
          have hSpelled :=
            Spells.linear hDigits
              (mayBeSigned_of_withoutBlanks hGaps hPlain hBefore) hCount
              .missing
          rwa [List.append_nil] at hSpelled
      | signed hOffset hSigned hValue =>
          rcases List.filter_eq_append_iff.1 hText with
            ⟨front, back, rfl, rfl, rfl⟩
          have hFront : GapsTouch isSign front :=
            hGaps.of_infix (List.prefix_append front back).isInfix
          have hBack : GapsTouch isSign back :=
            hGaps.of_infix (List.suffix_append front back).isInfix
          exact .linear hDigits
            (mayBeSigned_of_withoutBlanks hFront hPlain hBefore) hCount
            (.signed hOffset
              (isSigned_of_withoutBlanks hBack
                (isSign_of_mem_digits hOffset.2) hSigned) hValue)

omit hGaps

/-
  A text spells what it spells without its blanks, if these
  stand around the whole or beside signs.
-/
theorem spells_iff {f : Formula} :
    Spells text f ↔
      Spells (withoutBlanks text) f ∧ GapsTouch isSign text := by
  constructor
  · intro h
    exact ⟨h.withoutBlanks, h.gapsTouch⟩
  · rintro ⟨h, hGaps⟩
    exact spells_of_withoutBlanks hGaps h

end Blanks

------------------------------------------------------------
-- Reading
------------------------------------------------------------

/- A text is read as what it spells without its blanks. -/
theorem parse?_eq_some_iff
    {s : String}
    {f : Formula} :
    parse? s = some f ↔
      Spells (withoutBlanks (asciiLower s.toList)) f := by
  have hSame :
      asciiLower (withoutBlanks s.toList) =
        withoutBlanks (asciiLower s.toList) := by
    rw [asciiLower, asciiLower, withoutBlanks, withoutBlanks,
      List.filter_map]
    congr 2
    funext c
    simp [(toLower_plain c).1]
  rw [← readCompact?_eq_some_iff fun c => isBlank_of_mem_withoutBlanks,
    ← hSame]
  rfl

/- What is spelled is what is read and has its blanks beside signs. -/
theorem isSpelling_iff
    {s : String}
    {f : Formula} :
    IsSpelling s f ↔
      parse? s = some f ∧ GapsTouch isSign s.toList := by
  have hCase :
      GapsTouch isSign (asciiLower s.toList) ↔
        GapsTouch isSign s.toList :=
    gapsTouch_map_iff (fun c => (toLower_plain c).1)
      fun c => (toLower_plain c).2
  rw [IsSpelling, spells_iff, parse?_eq_some_iff, hCase]

/-
  A text is read as the formula that it spells without its
  blanks.  Those that spell a formula with their blanks are
  the ones with no blanks but around the whole and beside
  signs.  So just the texts that spell a formula are read,
  except where other blanks are in a text that is read.
-/
theorem read_texts_are_spelled_iff (s : String) :
    (∀ f, parse? s = some f ↔
        Spells (withoutBlanks (asciiLower s.toList)) f) ∧
      (∀ f, IsSpelling s f ↔
        parse? s = some f ∧ GapsTouch isSign s.toList) ∧
        ((∀ f, parse? s = some f ↔ IsSpelling s f) ↔
          parse? s = none ∨ GapsTouch isSign s.toList) := by
  refine ⟨fun f => parse?_eq_some_iff, fun f => isSpelling_iff, ?_⟩
  constructor
  · intro hAgrees
    cases hRead : parse? s with
    | none => exact .inl rfl
    | some f =>
        have hSpelled := (hAgrees f).1 hRead
        exact .inr (isSpelling_iff.1 hSpelled).2
  · rintro (hNone | hGaps) f
    · rw [isSpelling_iff, hNone]
      simp
    · rw [isSpelling_iff]
      simp [hGaps]

/- Two digits with a blank between them are read as one number. -/
theorem text_with_split_number_is_read :
    ¬ ∀ s f, parse? s = some f ↔ IsSpelling s f := by
  intro hAll
  have hRead : parse? "1 2" = some ⟨0, 12⟩ := by decide
  have hSpelled := (hAll "1 2" ⟨0, 12⟩).1 hRead
  have hGaps := (isSpelling_iff.1 hSpelled).2
  have hBlank : AreBlanks [' '] := by
    simp only [AreBlanks, List.mem_singleton, forall_eq]
    decide
  rcases hGaps [] '1' [' '] '2' [] rfl (by simp) hBlank (by decide)
    (by decide) with hTouch | hTouch
  · cases hTouch
  · cases hTouch

end TreeQuery.Formula
