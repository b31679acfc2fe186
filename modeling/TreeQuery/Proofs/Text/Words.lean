import Mathlib.Data.List.Chain
import TreeQuery.Proofs.Text.Lowercase
import TreeQuery.Tree.Content

/-
  The words of a text, and the text that they make up.

  A normalised text is tidy: no blank is at its ends, and
  single spaces are its only blanks.  It is the only tidy text
  with its words.  What a text has a part of, its words make
  up a part of too, since a word that the part has cut is cut
  at its outer side only.

  Key definitions include:
    * `Text.IsTidy`
    * `Text.IsTidyFrom`

  Main statements:
    * `Text.words_eq_splitOnP`
    * `Text.words_normalizeBlanks`
    * `Text.isTidy_normalizeBlanks`
    * `Text.normalizeBlanks_of_isTidy`
    * `Text.normalizeBlanks_infix`
    * `normalizeSpaces_is_normal_form`
-/

namespace TreeQuery

namespace Text

------------------------------------------------------------
-- Words
------------------------------------------------------------

/- Nothing is put before the first piece. -/
private theorem modifyHead_nil_append (ws : List (List Char)) :
    ws.modifyHead ([] ++ ·) = ws :=
  congrFun List.modifyHead_id ws

/- The first piece between blanks goes on from the part of a word. -/
theorem wordsFrom_eq_splitOnP (word cs : List Char) :
    wordsFrom word cs =
      ((cs.splitOnP isBlank).modifyHead (word ++ ·)).filter
        (!·.isEmpty) := by
  induction cs generalizing word with
  | nil =>
      rw [wordsFrom, List.splitOnP_nil, List.modifyHead_cons,
        List.append_nil]
      cases word with
      | nil => rfl
      | cons c word => rfl
  | cons c cs ih =>
      rw [wordsFrom, List.splitOnP_cons_eq_if_modifyHead, ih, ih]
      by_cases hBlank : isBlank c = true
      · rw [if_pos hBlank, if_pos hBlank, List.modifyHead_cons,
          List.append_nil, modifyHead_nil_append]
        cases word with
        | nil => rfl
        | cons d word => rfl
      · rw [if_neg hBlank, if_neg hBlank, List.modifyHead_modifyHead]
        simp [Function.comp_def]

/- The words are the pieces between blanks that are not empty. -/
theorem words_eq_splitOnP (cs : List Char) :
    words cs = (cs.splitOnP isBlank).filter (!·.isEmpty) := by
  rw [words, wordsFrom_eq_splitOnP, modifyHead_nil_append]

/- Up to the next blank a word goes on. -/
theorem wordsFrom_append_of_unblank
    {later : List Char}
    (hLater : ∀ c ∈ later, isBlank c = false)
    (word rest : List Char) :
    wordsFrom word (later ++ rest) = wordsFrom (word ++ later) rest := by
  induction later generalizing word with
  | nil => rw [List.nil_append, List.append_nil]
  | cons c later ih =>
      have hPlain : ¬ isBlank c = true := by simp [hLater c (by simp)]
      rw [List.cons_append, wordsFrom, if_neg hPlain,
        ih (fun d hMem => hLater d (by simp [hMem])), List.append_assoc,
        List.singleton_append]

/- Words are found again behind the spaces that were put between them. -/
theorem words_intercalate
    {ws : List (List Char)}
    (hWords : ∀ w ∈ ws, w ≠ [] ∧ ∀ c ∈ w, isBlank c = false) :
    words ([' '].intercalate ws) = ws := by
  induction ws with
  | nil => rfl
  | cons w ws ih =>
      rcases hWords w (by simp) with ⟨hSome, hChars⟩
      have hFilled : w.isEmpty = false := List.isEmpty_eq_false_iff.2 hSome
      have hRest := ih fun v hMem => hWords v (by simp [hMem])
      by_cases hLast : ws = []
      · subst hLast
        have hEnd := wordsFrom_append_of_unblank hChars [] []
        rw [List.append_nil, List.nil_append, wordsFrom, hFilled] at hEnd
        simpa [words, List.intercalate] using hEnd
      · have hSpace : isBlank ' ' = true := by decide
        rw [List.intercalate_cons_of_ne_nil hLast, List.append_assoc,
          words, wordsFrom_append_of_unblank hChars, List.nil_append,
          List.singleton_append, wordsFrom, if_pos hSpace, hFilled,
          if_neg (by simp), ← words, hRest]

/- Normalising a text changes no word. -/
theorem words_normalizeBlanks (cs : List Char) :
    words (normalizeBlanks cs) = words cs := by
  rw [normalizeBlanks_eq_intercalate]
  exact words_intercalate fun _ hMem => mem_wordsFrom (by simp) hMem

------------------------------------------------------------
-- Tidy Texts
------------------------------------------------------------

/-
  No blank is at the ends of the text, all blanks are spaces,
  and no two of them stand side by side.
-/
structure IsTidy (cs : List Char) : Prop where
  head : ∀ c, cs.head? = some c → isBlank c = false
  last : ∀ c, cs.getLast? = some c → isBlank c = false
  space : ∀ c ∈ cs, isBlank c = true → c = ' '
  single : cs.IsChain fun c d => isBlank c = true → isBlank d = false

theorem IsTidy.nil : IsTidy [] where
  head := by simp
  last := by simp
  space := by simp
  single := .nil

/-
  The rest of a text is tidy.  It may begin with a space, or be
  nothing, only within a word.
-/
structure IsTidyFrom (inWord : Bool) (cs : List Char) : Prop where
  begun : cs = [] → inWord = true
  head : inWord = false → ∀ c, cs.head? = some c → isBlank c = false
  last : ∀ c, cs.getLast? = some c → isBlank c = false
  space : ∀ c ∈ cs, isBlank c = true → c = ' '
  single : cs.IsChain fun c d => isBlank c = true → isBlank d = false

/- A blank ends a word, is a space, and has a word behind it. -/
theorem isTidyFrom_cons_of_blank
    {inWord : Bool}
    {c : Char}
    (hBlank : isBlank c = true)
    (cs : List Char) :
    IsTidyFrom inWord (c :: cs) ↔
      inWord = true ∧ c = ' ' ∧ IsTidyFrom false cs := by
  constructor
  · intro h
    have hNext : ∀ d, cs.head? = some d → isBlank d = false := by
      intro d hFirst
      cases cs with
      | nil => simp at hFirst
      | cons e cs =>
          cases hFirst
          exact (List.isChain_cons_cons.1 h.single).1 hBlank
    refine ⟨?_, h.space c List.mem_cons_self hBlank, ?_, fun _ => hNext,
      ?_, ?_, h.single.tail⟩
    · by_contra hStart
      have hPlain := h.head (by simpa using hStart) c rfl
      simp [hBlank] at hPlain
    · rintro rfl
      have hPlain := h.last c rfl
      simp [hBlank] at hPlain
    · intro d hEnd
      exact h.last d (by simp [List.getLast?_cons, hEnd])
    · intro d hMem
      exact h.space d (List.mem_cons_of_mem c hMem)
  · rintro ⟨rfl, rfl, hRest⟩
    cases cs with
    | nil =>
        have hNone := hRest.begun rfl
        simp at hNone
    | cons d cs =>
        refine ⟨by simp, by simp, ?_, by simpa using hRest.space, ?_⟩
        · rw [List.getLast?_cons_cons]
          exact hRest.last
        · rw [List.isChain_cons_cons]
          exact ⟨fun _ => hRest.head rfl d rfl, hRest.single⟩

/- After any other character the text goes on within a word. -/
theorem isTidyFrom_cons_of_not
    {inWord : Bool}
    {c : Char}
    (hBlank : isBlank c = false)
    (cs : List Char) :
    IsTidyFrom inWord (c :: cs) ↔ IsTidyFrom true cs := by
  constructor
  · intro h
    refine ⟨fun _ => rfl, by simp, ?_, ?_, h.single.tail⟩
    · intro d hEnd
      exact h.last d (by simp [List.getLast?_cons, hEnd])
    · intro d hMem
      exact h.space d (List.mem_cons_of_mem c hMem)
  · intro h
    refine ⟨by simp, by simp [hBlank], ?_, ?_, ?_⟩
    · cases cs with
      | nil => simp [hBlank]
      | cons d cs =>
          rw [List.getLast?_cons_cons]
          exact h.last
    · simpa [hBlank] using h.space
    · cases cs with
      | nil => exact .singleton c
      | cons d cs =>
          rw [List.isChain_cons_cons]
          exact ⟨by simp [hBlank], h.single⟩

/- Such texts are words with single spaces. -/
theorem isSpaced_iff {inWord : Bool} {cs : List Char} :
    isSpaced inWord cs = true ↔ IsTidyFrom inWord cs := by
  induction cs generalizing inWord with
  | nil =>
      rw [isSpaced]
      exact ⟨fun h => ⟨fun _ => h, by simp, by simp, by simp, .nil⟩,
        fun h => h.begun rfl⟩
  | cons c cs ih =>
      rw [isSpaced]
      by_cases hBlank : isBlank c = true
      · rw [if_pos hBlank, Bool.and_eq_true, Bool.and_eq_true,
          beq_iff_eq, ih, and_assoc, isTidyFrom_cons_of_blank hBlank]
      · rw [if_neg hBlank, ih,
          isTidyFrom_cons_of_not (by simpa using hBlank)]

/- A normalised text is tidy. -/
theorem isTidy_normalizeBlanks (cs : List Char) :
    IsTidy (normalizeBlanks cs) := by
  rcases normalizeBlanks_spaced cs with hEmpty | hSpaced
  · rw [hEmpty]
    exact .nil
  · have hFrom := isSpaced_iff.1 hSpaced
    exact ⟨hFrom.head rfl, hFrom.last, hFrom.space, hFrom.single⟩

/- Normalising does not change a tidy text. -/
theorem normalizeBlanks_of_isTidy
    {cs : List Char}
    (h : IsTidy cs) :
    normalizeBlanks cs = cs := by
  by_cases hNil : cs = []
  · rw [hNil]
    rfl
  · apply normalizeBlanks_of_isSpaced
    exact isSpaced_iff.2 ⟨fun hNone => absurd hNone hNil,
      fun _ => h.head, h.last, h.space, h.single⟩

------------------------------------------------------------
-- Parts of Texts
------------------------------------------------------------

/- The first of several words stands first. -/
theorem prefix_intercalate_cons (w : List Char) (ws : List (List Char)) :
    w <+: [' '].intercalate (w :: ws) := by
  by_cases hLast : ws = []
  · subst hLast
    simp [List.intercalate]
  · rw [List.intercalate_cons_of_ne_nil hLast, List.append_assoc]
    exact List.prefix_append w _

/- The other words stand last. -/
theorem intercalate_suffix_cons (w : List Char) (ws : List (List Char)) :
    [' '].intercalate ws <:+ [' '].intercalate (w :: ws) := by
  by_cases hLast : ws = []
  · subst hLast
    exact List.nil_suffix
  · rw [List.intercalate_cons_of_ne_nil hLast]
    exact List.suffix_append _ _

/- A longer last text keeps what the words before it make up. -/
theorem intercalate_cons_mono
    {ws ws' : List (List Char)}
    (hPrefix : [' '].intercalate ws <+: [' '].intercalate ws')
    (hSome : ws ≠ [] → ws' ≠ [])
    (w : List Char) :
    [' '].intercalate (w :: ws) <+: [' '].intercalate (w :: ws') := by
  by_cases hLast : ws = []
  · subst hLast
    simpa [List.intercalate] using prefix_intercalate_cons w ws'
  · rw [List.intercalate_cons_of_ne_nil hLast,
      List.intercalate_cons_of_ne_nil (hSome hLast),
      List.prefix_append_right_inj]
    exact hPrefix

/- A longer first word keeps what the words behind it make up. -/
theorem intercalate_cons_suffix
    (before w : List Char)
    (ws : List (List Char)) :
    [' '].intercalate (w :: ws) <:+
      [' '].intercalate ((before ++ w) :: ws) := by
  by_cases hLast : ws = []
  · subst hLast
    simp [List.intercalate]
  · rw [List.intercalate_cons_of_ne_nil hLast,
      List.intercalate_cons_of_ne_nil hLast, List.append_assoc,
      List.append_assoc, List.append_assoc]
    exact List.suffix_append before _

/- A word that has begun is the first, however it goes on. -/
theorem exists_wordsFrom_eq_cons
    {word : List Char}
    (hSome : word ≠ [])
    (cs : List Char) :
    ∃ later ws, wordsFrom word cs = (word ++ later) :: ws := by
  induction cs generalizing word with
  | nil => exact ⟨[], [], by simp [wordsFrom, hSome]⟩
  | cons c cs ih =>
      rw [wordsFrom]
      by_cases hBlank : isBlank c = true
      · exact ⟨[], wordsFrom [] cs, by simp [hBlank, hSome]⟩
      · have hLonger : word ++ [c] ≠ [] := by simp
        rcases ih hLonger with ⟨later, ws, hRest⟩
        exact ⟨c :: later, ws, by simp [hBlank, hRest]⟩

/-
  Where a text goes on, its words stay, but for the last one,
  which may be longer, and others follow.
-/
theorem wordsFrom_append_right (word cs after : List Char) :
    [' '].intercalate (wordsFrom word cs) <+:
        [' '].intercalate (wordsFrom word (cs ++ after)) ∧
      (wordsFrom word cs ≠ [] → wordsFrom word (cs ++ after) ≠ []) := by
  induction cs generalizing word with
  | nil =>
      by_cases hNil : word = []
      · subst hNil
        exact ⟨List.nil_prefix, fun hSome => absurd rfl hSome⟩
      · rcases exists_wordsFrom_eq_cons hNil after with ⟨later, ws, hWords⟩
        have hLonger := prefix_intercalate_cons (word ++ later) ws
        have hWord := (List.prefix_append word later).trans hLonger
        rw [List.nil_append, hWords]
        refine ⟨?_, fun _ => List.cons_ne_nil _ _⟩
        simpa [wordsFrom, hNil, List.intercalate] using hWord
  | cons c cs ih =>
      rw [List.cons_append, wordsFrom, wordsFrom]
      by_cases hBlank : isBlank c = true
      · rw [if_pos hBlank, if_pos hBlank]
        cases word with
        | nil => exact ih []
        | cons d word =>
            rcases ih [] with ⟨hPrefix, hSome⟩
            exact ⟨intercalate_cons_mono hPrefix hSome (d :: word),
              fun _ => List.cons_ne_nil _ _⟩
      · rw [if_neg hBlank, if_neg hBlank]
        exact ih (word ++ [c])

/- What has begun before a text makes its first word longer only. -/
theorem wordsFrom_append_left (before word cs : List Char) :
    [' '].intercalate (wordsFrom word cs) <:+
      [' '].intercalate (wordsFrom (before ++ word) cs) := by
  induction cs generalizing word with
  | nil =>
      cases word with
      | nil => exact List.nil_suffix
      | cons d word => simp [wordsFrom]
  | cons c cs ih =>
      rw [wordsFrom, wordsFrom]
      by_cases hBlank : isBlank c = true
      · rw [if_pos hBlank, if_pos hBlank]
        cases word with
        | nil =>
            cases before with
            | nil => exact List.suffix_refl _
            | cons b before => exact intercalate_suffix_cons _ _
        | cons d word =>
            simpa using intercalate_cons_suffix before (d :: word)
              (wordsFrom [] cs)
      · rw [if_neg hBlank, if_neg hBlank, List.append_assoc]
        exact ih (word ++ [c])

/- So the words of a text are the last of those of a longer one. -/
theorem words_suffix (word before cs : List Char) :
    [' '].intercalate (words cs) <:+
      [' '].intercalate (wordsFrom word (before ++ cs)) := by
  induction before generalizing word with
  | nil =>
      have hFirst := wordsFrom_append_left word [] cs
      rwa [List.append_nil] at hFirst
  | cons c before ih =>
      rw [List.cons_append, wordsFrom]
      by_cases hBlank : isBlank c = true
      · rw [if_pos hBlank]
        cases word with
        | nil => exact ih []
        | cons d word =>
            exact (ih []).trans (intercalate_suffix_cons (d :: word) _)
      · rw [if_neg hBlank]
        exact ih (word ++ [c])

/- A part of a text, normalised, is a part of the text, normalised. -/
theorem normalizeBlanks_infix
    {part cs : List Char}
    (h : part <:+: cs) :
    normalizeBlanks part <:+: normalizeBlanks cs := by
  rcases h with ⟨before, after, rfl⟩
  have hPrefix :
      [' '].intercalate (words part) <+:
        [' '].intercalate (words (part ++ after)) :=
    (wordsFrom_append_right [] part after).1
  have hSuffix :
      [' '].intercalate (words (part ++ after)) <:+
        [' '].intercalate (words (before ++ (part ++ after))) :=
    words_suffix [] before (part ++ after)
  rw [List.append_assoc, normalizeBlanks_eq_intercalate,
    normalizeBlanks_eq_intercalate]
  exact hPrefix.isInfix.trans hSuffix.isInfix

end Text

------------------------------------------------------------
-- Normalised Strings
------------------------------------------------------------

theorem toList_normalizeSpaces (s : String) :
    (normalizeSpaces s).toList = Text.normalizeBlanks s.toList := by
  rw [normalizeSpaces, String.toList_ofList]

/- A string is normalised by its words alone. -/
theorem normalizeSpaces_eq_iff {s t : String} :
    normalizeSpaces s = normalizeSpaces t ↔
      Text.words s.toList = Text.words t.toList := by
  constructor
  · intro hSame
    rw [← Text.words_normalizeBlanks s.toList,
      ← Text.words_normalizeBlanks t.toList, ← toList_normalizeSpaces,
      ← toList_normalizeSpaces, hSame]
  · intro hWords
    rw [normalizeSpaces, normalizeSpaces, Text.normalizeBlanks,
      Text.normalizeBlanks, hWords]

/- A tidy string is normalised. -/
theorem normalizeSpaces_of_isTidy
    {s : String}
    (h : Text.IsTidy s.toList) :
    normalizeSpaces s = s := by
  rw [normalizeSpaces, Text.normalizeBlanks_of_isTidy h,
    String.ofList_toList]

/-
  A normalised string is tidy, has the words of the string, and
  is the only tidy one that has them.  Normalising it again
  changes nothing.  Two strings are normalised alike exactly if
  they have the same words, and a part of a string is
  normalised to a part.
-/
theorem normalizeSpaces_is_normal_form (s : String) :
    Text.words s.toList =
        (s.toList.splitOnP Text.isBlank).filter (!·.isEmpty) ∧
      (Text.IsTidy (normalizeSpaces s).toList ∧
        Text.words (normalizeSpaces s).toList = Text.words s.toList ∧
        ∀ t : String, Text.IsTidy t.toList →
          Text.words t.toList = Text.words s.toList →
            t = normalizeSpaces s) ∧
      normalizeSpaces (normalizeSpaces s) = normalizeSpaces s ∧
      (∀ t : String, normalizeSpaces s = normalizeSpaces t ↔
        Text.words s.toList = Text.words t.toList) ∧
      ∀ t : String, s.toList <:+: t.toList →
        (normalizeSpaces s).toList <:+: (normalizeSpaces t).toList := by
  have hTidy : Text.IsTidy (normalizeSpaces s).toList := by
    rw [toList_normalizeSpaces]
    exact Text.isTidy_normalizeBlanks s.toList
  have hWords :
      Text.words (normalizeSpaces s).toList = Text.words s.toList := by
    rw [toList_normalizeSpaces, Text.words_normalizeBlanks]
  refine ⟨Text.words_eq_splitOnP s.toList, ⟨hTidy, hWords, ?_⟩,
    normalizeSpaces_of_isTidy hTidy, fun t => normalizeSpaces_eq_iff, ?_⟩
  · intro t hTidy' hWords'
    rw [← normalizeSpaces_of_isTidy hTidy', normalizeSpaces_eq_iff, hWords']
  · intro t hPart
    rw [toList_normalizeSpaces, toList_normalizeSpaces]
    exact Text.normalizeBlanks_infix hPart

/-
  The part begins and ends within words of the string, and the
  blanks in it are of several kinds.
-/
theorem normalizeSpaces_is_normal_form_cut_words :
    "b \t\u00a0c\nd".toList <:+: " ab \t\u00a0c\nde ".toList ∧
      normalizeSpaces "b \t\u00a0c\nd" = "b c d" ∧
        normalizeSpaces " ab \t\u00a0c\nde " = "ab c de" ∧
          "b c d".toList <:+: "ab c de".toList := by
  have hPart :
      "b \t\u00a0c\nd".toList <:+: " ab \t\u00a0c\nde ".toList :=
    ⟨[' ', 'a'], ['e', ' '], rfl⟩
  have hSmall : normalizeSpaces "b \t\u00a0c\nd" = "b c d" := by
    decide +kernel
  have hLarge : normalizeSpaces " ab \t\u00a0c\nde " = "ab c de" := by
    decide +kernel
  have hInfix := (normalizeSpaces_is_normal_form "b \t\u00a0c\nd").2.2.2.2
    " ab \t\u00a0c\nde " hPart
  rw [hSmall, hLarge] at hInfix
  exact ⟨hPart, hSmall, hLarge, hInfix⟩

end TreeQuery
