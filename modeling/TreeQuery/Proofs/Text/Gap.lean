import TreeQuery.Proofs.Text.Blank

/-
  Blanks within a text, and the text that is left without
  them.

  A word is padded if blanks alone stand around it.  A gap is
  blanks between two other characters.  Where all gaps touch
  characters of one kind, the words without such characters
  are found again from the text without its blanks.

  Key definitions include:
    * `Text.withoutBlanks`
    * `Text.IsPadded`
    * `Text.GapsTouch`

  Main statements:
    * `Text.IsPadded.gapsTouch`
    * `Text.GapsTouch.join`
    * `Text.GapsTouch.isPadded`
    * `Text.gapsTouch_map_iff`
-/

namespace TreeQuery.Text

variable {p : Char → Bool} {text word : List Char}

------------------------------------------------------------
-- Texts without Blanks
------------------------------------------------------------

/- The characters of a text that are no blanks. -/
def withoutBlanks (text : List Char) : List Char :=
  text.filter fun c => !isBlank c

theorem isBlank_of_mem_withoutBlanks
    {x : Char}
    (h : x ∈ withoutBlanks text) :
    isBlank x = false := by
  simpa using (List.mem_filter.1 h).2

/- No character is a blank and none at once. -/
theorem AreBlanks.eq_nil
    (hBlanks : AreBlanks text)
    (hUnblank : ∀ x ∈ text, isBlank x = false) :
    text = [] := by
  rw [List.eq_nil_iff_forall_not_mem]
  intro x hMem
  have hContrary := hUnblank x hMem
  rw [hBlanks x hMem] at hContrary
  cases hContrary

theorem withoutBlanks_append (front back : List Char) :
    withoutBlanks (front ++ back) =
      withoutBlanks front ++ withoutBlanks back :=
  List.filter_append front back

theorem withoutBlanks_cons_of_not
    {x : Char}
    (h : isBlank x = false)
    (text : List Char) :
    withoutBlanks (x :: text) = x :: withoutBlanks text := by
  simp [withoutBlanks, h]

/- Nothing is left of blanks alone. -/
theorem withoutBlanks_eq_nil_iff :
    withoutBlanks text = [] ↔ AreBlanks text := by
  simp [withoutBlanks, AreBlanks]

theorem withoutBlanks_of_unblank
    (h : ∀ x ∈ text, isBlank x = false) :
    withoutBlanks text = text := by
  rw [withoutBlanks, List.filter_eq_self]
  intro x hMem
  rw [h x hMem]
  rfl

/- Before the first character that is left, blanks stand. -/
theorem withoutBlanks_eq_cons
    {x : Char}
    {rest : List Char}
    (h : withoutBlanks text = x :: rest) :
    ∃ gap later, AreBlanks gap ∧ text = gap ++ x :: later ∧
      withoutBlanks later = rest := by
  rcases List.filter_eq_cons_iff.1 h with
    ⟨gap, later, hText, hGap, _, hLater⟩
  refine ⟨gap, later, ?_, hText, hLater⟩
  intro y hMem
  simpa using hGap y hMem

------------------------------------------------------------
-- Padded Words
------------------------------------------------------------

/- The text is the word with blanks around it. -/
def IsPadded (word text : List Char) : Prop :=
  ∃ before after,
    AreBlanks before ∧ AreBlanks after ∧
      text = before ++ (word ++ after)

theorem isPadded_self (word : List Char) : IsPadded word word :=
  ⟨[], [], .nil, .nil, by simp⟩

/- Only blanks are added to a word. -/
theorem IsPadded.withoutBlanks_eq
    (h : IsPadded word text) :
    withoutBlanks text = withoutBlanks word := by
  rcases h with ⟨before, after, hBefore, hAfter, rfl⟩
  rw [withoutBlanks_append, withoutBlanks_append,
    withoutBlanks_eq_nil_iff.2 hBefore, withoutBlanks_eq_nil_iff.2 hAfter,
    List.nil_append, List.append_nil]

theorem IsPadded.withoutBlanks
    (h : IsPadded word text)
    (hWord : ∀ x ∈ word, isBlank x = false) :
    IsPadded word (withoutBlanks text) := by
  rw [h.withoutBlanks_eq, withoutBlanks_of_unblank hWord]
  exact isPadded_self word

/- Where there are no blanks, none are around the word. -/
theorem isPadded_iff_of_unblank
    (hText : ∀ x ∈ text, isBlank x = false) :
    IsPadded word text ↔ text = word := by
  constructor
  · rintro ⟨before, after, hBefore, hAfter, rfl⟩
    have hNoneBefore := hBefore.eq_nil fun x hMem => hText x (by simp [hMem])
    have hNoneAfter := hAfter.eq_nil fun x hMem => hText x (by simp [hMem])
    rw [hNoneBefore, hNoneAfter, List.nil_append, List.append_nil]
  · rintro rfl
    exact isPadded_self text

------------------------------------------------------------
-- Gaps
------------------------------------------------------------

/-
  Where blanks stand between two other characters, one of
  these satisfies `p`.
-/
def GapsTouch (p : Char → Bool) (text : List Char) : Prop :=
  ∀ before x gap y after,
    text = before ++ x :: (gap ++ y :: after) →
      gap ≠ [] → AreBlanks gap →
        isBlank x = false → isBlank y = false →
          p x = true ∨ p y = true

namespace GapsTouch

/- A gap of a part is a gap of the whole. -/
theorem of_infix
    {part : List Char}
    (h : GapsTouch p text)
    (hPart : part <:+: text) :
    GapsTouch p part := by
  rintro before x gap y after rfl hGap
  rcases hPart with ⟨front, back, rfl⟩
  exact h (front ++ before) x gap y (after ++ back) (by simp) hGap

theorem of_unblank (h : ∀ x ∈ text, isBlank x = false) :
    GapsTouch p text := by
  rintro before x gap y after rfl hGap hBlanks
  exact absurd (hBlanks.eq_nil fun z hMem => h z (by simp [hMem])) hGap

/- Blanks at the start of a text are between no characters. -/
theorem blanks_append
    {blanks : List Char}
    (h : GapsTouch p text)
    (hBlanks : AreBlanks blanks) :
    GapsTouch p (blanks ++ text) := by
  rintro before x gap y after hText hGap hGapBlanks hx
  rcases List.append_eq_append_iff.1 hText with
    ⟨front, _, hRest⟩ | ⟨back, hBlank, hRest⟩
  · exact h front x gap y after hRest hGap hGapBlanks hx
  · rcases List.cons_eq_append_iff.1 hRest with
      ⟨rfl, hHead⟩ | ⟨back, rfl, _⟩
    · exact h [] x gap y after hHead hGap hGapBlanks hx
    · rw [hBlanks x (by simp [hBlank])] at hx
      cases hx

/- Nor are blanks at its end. -/
theorem append_blanks
    {blanks : List Char}
    (h : GapsTouch p text)
    (hBlanks : AreBlanks blanks) :
    GapsTouch p (text ++ blanks) := by
  rintro before x gap y after hText hGap hGapBlanks hx hy
  have hText' :
      text ++ blanks = (before ++ x :: gap) ++ y :: after := by
    simpa using hText
  rcases List.append_eq_append_iff.1 hText' with
    ⟨front, _, hBlank⟩ | ⟨back, hRest, hBlank⟩
  · rw [hBlanks y (by simp [hBlank])] at hy
    cases hy
  · rcases List.cons_eq_append_iff.1 hBlank with
      ⟨rfl, hHead⟩ | ⟨back, rfl, _⟩
    · rw [hBlanks y (by simp [hHead])] at hy
      cases hy
    · exact h before x gap y back (by simpa using hRest) hGap hGapBlanks
        hx hy

/-
  Around a character that satisfies `p`, blanks may stand on
  both sides.
-/
theorem join
    {left right : List Char}
    {z : Char}
    (hLeft : GapsTouch p left)
    (hRight : GapsTouch p right)
    (hTouch : p z = true)
    (hUnblank : isBlank z = false) :
    GapsTouch p (left ++ z :: right) := by
  rintro before x gap y after hText hGap hBlanks hx hy
  rcases List.append_eq_append_iff.1 hText with
    ⟨front, _, hRest⟩ | ⟨back, hFront, hRest⟩
  · rcases List.cons_eq_append_iff.1 hRest with
      ⟨_, hSame⟩ | ⟨front, _, hBehind⟩
    · cases hSame
      exact .inl hTouch
    · exact hRight front x gap y after hBehind hGap hBlanks hx hy
  · rcases List.cons_eq_append_iff.1 hRest with
      ⟨_, hSame⟩ | ⟨back, rfl, hInner⟩
    · cases hSame
      exact .inl hTouch
    · rcases List.append_eq_append_iff.1 hInner with
        ⟨inner, rfl, hAfter⟩ | ⟨inner, rfl, hAfter⟩
      · rcases List.cons_eq_append_iff.1 hAfter with
          ⟨_, hSame⟩ | ⟨inner, rfl, _⟩
        · cases hSame
          exact .inr hTouch
        · exact hLeft before x gap y inner (by simpa using hFront) hGap
            hBlanks hx hy
      · rcases List.cons_eq_append_iff.1 hAfter with
          ⟨_, hSame⟩ | ⟨inner, rfl, _⟩
        · cases hSame
          exact .inr hTouch
        · rw [hBlanks z (by simp)] at hUnblank
          cases hUnblank

end GapsTouch

/- A padded word has no gaps. -/
theorem IsPadded.gapsTouch
    (h : IsPadded word text)
    (hWord : ∀ x ∈ word, isBlank x = false) :
    GapsTouch p text := by
  rcases h with ⟨before, after, hBefore, hAfter, rfl⟩
  exact ((GapsTouch.of_unblank hWord).append_blanks hAfter).blanks_append
    hBefore

/- Characters may be exchanged if that keeps blanks and `p`. -/
theorem gapsTouch_map_iff
    {f : Char → Char}
    (hBlank : ∀ x, isBlank (f x) = isBlank x)
    (hTouch : ∀ x, p (f x) = p x) :
    GapsTouch p (text.map f) ↔ GapsTouch p text := by
  have hGapBlanks :
      ∀ gap : List Char, AreBlanks (gap.map f) ↔ AreBlanks gap := by
    intro gap
    simp [AreBlanks, hBlank]
  constructor
  · rintro h before x gap y after rfl hGap hBlanks hx hy
    rw [← hTouch x, ← hTouch y]
    exact h (before.map f) (f x) (gap.map f) (f y) (after.map f) (by simp)
      (by simpa using hGap) ((hGapBlanks gap).2 hBlanks)
      (by rwa [hBlank]) (by rwa [hBlank])
  · intro h before x gap y after hText hGap hBlanks hx hy
    rcases List.map_eq_append_iff.1 hText with
      ⟨before, _, rfl, rfl, hFirst⟩
    rcases List.map_eq_cons_iff.1 hFirst with ⟨x, _, rfl, rfl, hInner⟩
    rcases List.map_eq_append_iff.1 hInner with ⟨gap, _, rfl, rfl, hSecond⟩
    rcases List.map_eq_cons_iff.1 hSecond with ⟨y, after, rfl, rfl, rfl⟩
    rw [hTouch x, hTouch y]
    exact h before x gap y after rfl (by simpa using hGap)
      ((hGapBlanks gap).1 hBlanks) (by rwa [← hBlank])
      (by rwa [← hBlank])

/-
  Behind a character of a word no blanks stand before the
  next one, so the word goes on as it does without blanks.
-/
theorem GapsTouch.exists_append_blanks
    {x : Char}
    (h : GapsTouch p (x :: text))
    (hUnblank : isBlank x = false)
    (hPlain : ∀ y ∈ x :: withoutBlanks text, p y = false) :
    ∃ after, AreBlanks after ∧ text = withoutBlanks text ++ after := by
  generalize hWord : withoutBlanks text = word at hPlain
  induction word generalizing x text with
  | nil => exact ⟨text, withoutBlanks_eq_nil_iff.1 hWord, rfl⟩
  | cons y word ih =>
      have hMem : y ∈ withoutBlanks text := by simp [hWord]
      have hy := isBlank_of_mem_withoutBlanks hMem
      rcases withoutBlanks_eq_cons hWord with
        ⟨gap, later, hBlanks, rfl, hLater⟩
      have hClosed : gap = [] := by
        by_contra hGap
        rcases h [] x gap y later rfl hGap hBlanks hUnblank hy with
          hTouch | hTouch
        · rw [hPlain x (by simp)] at hTouch
          cases hTouch
        · rw [hPlain y (by simp)] at hTouch
          cases hTouch
      rw [hClosed, List.nil_append] at h ⊢
      rcases ih (h.of_infix (List.suffix_cons x _).isInfix) hy hLater
        (fun z hMem => hPlain z (List.mem_cons_of_mem _ hMem)) with
        ⟨after, hAfter, hText⟩
      exact ⟨after, hAfter, by rw [hText, List.cons_append]⟩

/- A text that is a word without its blanks is the word, padded. -/
theorem GapsTouch.isPadded
    (h : GapsTouch p text)
    (hPlain : ∀ x ∈ withoutBlanks text, p x = false) :
    IsPadded (withoutBlanks text) text := by
  cases hWord : withoutBlanks text with
  | nil =>
      exact ⟨text, [], withoutBlanks_eq_nil_iff.1 hWord, .nil, by simp⟩
  | cons x word =>
      have hMem : x ∈ withoutBlanks text := by simp [hWord]
      have hx := isBlank_of_mem_withoutBlanks hMem
      rcases withoutBlanks_eq_cons hWord with
        ⟨gap, later, hBlanks, rfl, rfl⟩
      rw [hWord] at hPlain
      rcases (h.of_infix (List.suffix_append gap _).isInfix)
        |>.exists_append_blanks hx hPlain with ⟨after, hAfter, hLater⟩
      refine ⟨gap, after, hBlanks, hAfter, ?_⟩
      rw [List.cons_append, ← hLater]

end TreeQuery.Text
