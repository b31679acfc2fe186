import TreeQuery.Proofs.Text.Blank
import TreeQuery.Proofs.Text.Lowercase

/-
  Small letters within a longer text.

  The small letter of a capital sigma depends on the letters
  around it; no other character looks at its neighbours.  So a
  text has the same small letters on its own and within another
  text exactly if its sigmas end words alike in both.  A sigma
  is settled by the text itself if a letter of the text, or the
  lack of one, decides whether it ends a word.

  Key definitions include:
    * `Text.lowercaseBetween`
    * `Text.KeepsSigmas`
    * `Text.areSigmasInner`

  Main statements:
    * `Text.lowercaseFrom_append`
    * `Text.lowercaseBetween_eq_lowercase_iff`
    * `Text.lowercase_infix_of_keepsSigmas`
    * `Text.keepsSigmas_of_areSigmasInner`
    * `Text.exists_not_infix_of_not_areSigmasInner`
-/

namespace TreeQuery.Text

------------------------------------------------------------
-- Parts of a Text
------------------------------------------------------------

/-
  The small letters of a text between two others.  The text
  before it is given backwards, nearest character first.
-/
def lowercaseBetween
    (before : List Char) : List Char → List Char → List Char
| [], _ => []
| c :: cs, after =>
    lowerWithin before c (cs ++ after)
      ++ lowercaseBetween (c :: before) cs after

theorem lowercaseFrom_append (before xs ys : List Char) :
    lowercaseFrom before (xs ++ ys) =
      lowercaseBetween before xs ys
        ++ lowercaseFrom (xs.reverse ++ before) ys := by
  induction xs generalizing before with
  | nil => rfl
  | cons x xs ih =>
      rw [List.cons_append, lowercaseFrom, lowercaseBetween, ih,
        List.reverse_cons, List.append_assoc, List.append_assoc]
      rfl

/- A text with nothing around it has its own small letters. -/
theorem lowercaseBetween_nil (before cs : List Char) :
    lowercaseBetween before cs [] = lowercaseFrom before cs := by
  have hSplit := lowercaseFrom_append before cs []
  rwa [List.append_nil, lowercaseFrom, List.append_nil, eq_comm] at hSplit

/- What is around a character does not change how many letters it makes. -/
theorem length_lowerWithin
    (before before' : List Char)
    (c : Char)
    (after after' : List Char) :
    (lowerWithin before c after).length =
      (lowerWithin before' c after').length := by
  have hLength :
      ∀ before after, (lowerWithin before c after).length =
        if c = 'İ' then 2 else 1 := by
    intro before after
    unfold lowerWithin
    by_cases hSigma : c = 'Σ'
    · have hOther : c ≠ 'İ' := by
        rw [hSigma]
        decide
      rw [if_pos hSigma, if_neg hOther]
      split
      · rfl
      · rfl
    · rw [if_neg hSigma]
      split
      · rfl
      · rfl
  rw [hLength, hLength]

theorem length_lowercaseBetween
    (before before' cs after after' : List Char) :
    (lowercaseBetween before cs after).length =
      (lowercaseBetween before' cs after').length := by
  induction cs generalizing before before' with
  | nil => rfl
  | cons c cs ih =>
      rw [lowercaseBetween, lowercaseBetween, List.length_append,
        List.length_append, ih (c :: before) (c :: before'),
        length_lowerWithin before before']

------------------------------------------------------------
-- Sigmas
------------------------------------------------------------

/- Only a capital sigma looks at what is around it. -/
theorem lowerWithin_eq_lowerWithin_iff
    {before before' after after' : List Char}
    {c : Char} :
    lowerWithin before c after = lowerWithin before' c after' ↔
      (c = 'Σ' → endsWord before after = endsWord before' after') := by
  unfold lowerWithin
  by_cases hSigma : c = 'Σ'
  · rw [if_pos hSigma, if_pos hSigma]
    cases endsWord before after <;> cases endsWord before' after' <;>
      simp [hSigma]
  · simp [hSigma]

/- A sigma of a text is its first character, or one behind it. -/
theorem forall_sigma_cons_iff
    {p : List Char → List Char → Prop}
    {c : Char}
    {cs : List Char} :
    (∀ xs ys, c :: cs = xs ++ 'Σ' :: ys → p xs ys) ↔
      (c = 'Σ' → p [] cs) ∧
        ∀ xs ys, cs = xs ++ 'Σ' :: ys → p (c :: xs) ys := by
  constructor
  · intro hAll
    constructor
    · rintro rfl
      exact hAll [] cs rfl
    · rintro xs ys rfl
      exact hAll (c :: xs) ys rfl
  · rintro ⟨hHead, hTail⟩ xs ys hSplit
    cases xs with
    | nil =>
        cases hSplit
        exact hHead rfl
    | cons x xs =>
        cases hSplit
        exact hTail xs ys rfl

/-
  The small letters are the same in two surroundings exactly if
  each of the sigmas ends a word in both or in neither.
-/
theorem lowercaseBetween_eq_lowercaseBetween_iff
    {before before' cs after after' : List Char} :
    lowercaseBetween before cs after =
        lowercaseBetween before' cs after' ↔
      ∀ xs ys, cs = xs ++ 'Σ' :: ys →
        endsWord (xs.reverse ++ before) (ys ++ after) =
          endsWord (xs.reverse ++ before') (ys ++ after') := by
  induction cs generalizing before before' with
  | nil => simp [lowercaseBetween]
  | cons c cs ih =>
      have hParts :
          lowercaseBetween before (c :: cs) after =
              lowercaseBetween before' (c :: cs) after' ↔
            lowerWithin before c (cs ++ after) =
                lowerWithin before' c (cs ++ after') ∧
              lowercaseBetween (c :: before) cs after =
                lowercaseBetween (c :: before') cs after' := by
        rw [lowercaseBetween, lowercaseBetween]
        have hLength :=
          length_lowerWithin before before' c (cs ++ after) (cs ++ after')
        constructor
        · intro hSame
          exact List.append_inj hSame hLength
        · rintro ⟨hHead, hTail⟩
          rw [hHead, hTail]
      rw [hParts, ih, lowerWithin_eq_lowerWithin_iff,
        forall_sigma_cons_iff]
      simp only [List.reverse_nil, List.nil_append, List.reverse_cons,
        List.append_assoc, List.singleton_append]

/-
  Each sigma of the text ends a word in these surroundings
  exactly if it does with nothing around the text.
-/
def KeepsSigmas (before cs after : List Char) : Prop :=
  ∀ xs ys, cs = xs ++ 'Σ' :: ys →
    endsWord (xs.reverse ++ before.reverse) (ys ++ after) =
      endsWord xs.reverse ys

theorem lowercaseBetween_eq_lowercase_iff
    {before cs after : List Char} :
    lowercaseBetween before.reverse cs after = lowercase cs ↔
      KeepsSigmas before cs after := by
  rw [lowercase, ← lowercaseBetween_nil,
    lowercaseBetween_eq_lowercaseBetween_iff]
  simp only [List.append_nil, KeepsSigmas]

/- Then its small letters are found in those of the whole text. -/
theorem lowercase_infix_of_keepsSigmas
    {before cs after : List Char}
    (h : KeepsSigmas before cs after) :
    lowercase cs <:+: lowercase (before ++ cs ++ after) := by
  have hMiddle := lowercaseBetween_eq_lowercase_iff.2 h
  have hWhole :
      lowercase (before ++ cs ++ after) =
        lowercaseBetween [] before (cs ++ after)
          ++ (lowercase cs
            ++ lowercaseFrom (cs.reverse ++ before.reverse) after) := by
    rw [List.append_assoc, lowercase, lowercaseFrom_append,
      lowercaseFrom_append, List.append_nil, hMiddle]
  rw [hWhole, ← List.append_assoc]
  exact List.infix_append _ _ _

------------------------------------------------------------
-- Inner Sigmas
------------------------------------------------------------

/- What can be passed over does not decide what comes next. -/
theorem nextIsCased_append (xs ys : List Char) :
    nextIsCased (xs ++ ys) =
      if xs.all isCaseIgnorable then nextIsCased ys
      else nextIsCased xs := by
  unfold nextIsCased
  rw [List.dropWhile_append]
  by_cases hAll : xs.all isCaseIgnorable = true
  · have hNone : xs.dropWhile isCaseIgnorable = [] :=
      List.dropWhile_eq_nil_iff.2 (List.all_eq_true.1 hAll)
    simp [hAll, hNone]
  · have hSome : xs.dropWhile isCaseIgnorable ≠ [] := by
      intro hNone
      exact hAll (List.all_eq_true.2 (List.dropWhile_eq_nil_iff.1 hNone))
    rcases List.exists_cons_of_ne_nil hSome with ⟨x, rest, hRest⟩
    simp [hAll, hRest]

theorem nextIsCased_of_all
    {xs : List Char}
    (h : xs.all isCaseIgnorable = true) :
    nextIsCased xs = false := by
  have hAppend := nextIsCased_append xs []
  rw [List.append_nil, if_pos h] at hAppend
  exact hAppend

/-
  The text on the two sides of a sigma decides whether it ends
  a word, whatever comes behind on either side.  The text
  before the sigma is given backwards.
-/
def isInner (before after : List Char) : Bool :=
  (!before.all isCaseIgnorable || nextIsCased after)
    && (!after.all isCaseIgnorable || !nextIsCased before)

theorem endsWord_append_of_isInner
    {xs ys : List Char}
    (h : isInner xs ys = true)
    (before after : List Char) :
    endsWord (xs ++ before) (ys ++ after) = endsWord xs ys := by
  simp only [isInner, Bool.and_eq_true, Bool.or_eq_true,
    Bool.not_eq_true'] at h
  rcases h with ⟨hLeft, hRight⟩
  rw [endsWord, endsWord, nextIsCased_append, nextIsCased_append]
  by_cases hBefore : xs.all isCaseIgnorable = true
  · have hCased : nextIsCased ys = true := by
      simpa [hBefore] using hLeft
    have hAfter : ys.all isCaseIgnorable = false := by
      by_contra hAll
      rw [nextIsCased_of_all (by simpa using hAll)] at hCased
      cases hCased
    simp [hAfter, hCased]
  · by_cases hAfter : ys.all isCaseIgnorable = true
    · have hCased : nextIsCased xs = false := by
        simpa [hAfter] using hRight
      simp [hBefore, hCased]
    · simp [hBefore, hAfter]

/- A letter with case, and not to be passed over. -/
def IsLetter (k : Char) : Prop :=
  isCaseIgnorable k = false ∧ isCased k = true

/- Else a letter on one of the sides decides it another way. -/
theorem endsWord_ne_of_not_isInner
    {xs ys : List Char}
    (h : isInner xs ys = false) :
    (∀ k, IsLetter k → endsWord (xs ++ [k]) ys ≠ endsWord xs ys) ∨
      ∀ k, IsLetter k → endsWord xs (ys ++ [k]) ≠ endsWord xs ys := by
  have hCased : ∀ k, IsLetter k → nextIsCased [k] = true := by
    intro k hLetter
    simp [nextIsCased, hLetter.1, hLetter.2]
  simp only [isInner, Bool.and_eq_false_iff, Bool.or_eq_false_iff,
    Bool.not_eq_false'] at h
  rcases h with ⟨hBefore, hAfter⟩ | ⟨hAfter, hBefore⟩
  · left
    intro k hLetter
    rw [endsWord, endsWord, nextIsCased_append, if_pos hBefore,
      hCased k hLetter, nextIsCased_of_all hBefore, hAfter]
    simp
  · right
    intro k hLetter
    rw [endsWord, endsWord, nextIsCased_append, if_pos hAfter,
      hCased k hLetter, nextIsCased_of_all hAfter, hBefore]
    simp

/-
  All sigmas of a text are settled by the text itself, after
  the text before it, which is given backwards.
-/
def areSigmasInner : List Char → List Char → Bool
| _, [] => true
| before, c :: cs =>
    (c != 'Σ' || isInner before cs) && areSigmasInner (c :: before) cs

theorem areSigmasInner_iff {before cs : List Char} :
    areSigmasInner before cs = true ↔
      ∀ xs ys, cs = xs ++ 'Σ' :: ys →
        isInner (xs.reverse ++ before) ys = true := by
  induction cs generalizing before with
  | nil => simp [areSigmasInner]
  | cons c cs ih =>
      rw [areSigmasInner, Bool.and_eq_true, ih, Bool.or_eq_true,
        bne_iff_ne, ← imp_iff_not_or, forall_sigma_cons_iff]
      simp only [List.reverse_nil, List.nil_append, List.reverse_cons,
        List.append_assoc, List.singleton_append]

/- Such a text keeps its sigmas whatever it stands in. -/
theorem keepsSigmas_of_areSigmasInner
    {cs : List Char}
    (h : areSigmasInner [] cs = true)
    (before after : List Char) :
    KeepsSigmas before cs after := by
  intro xs ys hSplit
  have hInner := areSigmasInner_iff.1 h xs ys hSplit
  rw [List.append_nil] at hInner
  exact endsWord_append_of_isInner hInner before.reverse after

------------------------------------------------------------
-- Sigmas That Are Not Kept
------------------------------------------------------------

/- A small letter that can stand beside a text to join its words. -/
structure IsJoining (k : Char) : Prop where
  letter : IsLetter k
  unblank : isBlank k = false
  small : ∀ before after, lowerWithin before k after = [k]

/- There is one that is not the character given. -/
theorem exists_isJoining_ne (c? : Option Char) :
    ∃ k, IsJoining k ∧ c? ≠ some k := by
  have hJoining : ∀ k ∈ ['a', 'b'], IsJoining k := by
    intro k hMem
    have hFacts :
        IsSettled k ∧ isBlank k = false ∧ isCaseIgnorable k = false ∧
          isCased k = true := by
      simp only [List.mem_cons, List.not_mem_nil, or_false] at hMem
      rcases hMem with rfl | rfl
      · decide +kernel
      · decide +kernel
    rcases hFacts with ⟨⟨hLower, hSigma, hDotted⟩, hBlank, hPassed, hCased⟩
    refine ⟨⟨hPassed, hCased⟩, hBlank, fun before after => ?_⟩
    rw [lowerWithin, if_neg hSigma, if_neg hDotted, hLower]
  by_cases hFirst : c? = some 'a'
  · exact ⟨'b', hJoining 'b' (by simp), by simp [hFirst]⟩
  · exact ⟨'a', hJoining 'a' (by simp), hFirst⟩

/- A text is no part of another of its length with one more character. -/
theorem not_infix_cons
    {k : Char}
    {xs ys : List Char}
    (hLength : xs.length = ys.length)
    (hOther : xs ≠ ys)
    (hHead : xs.head? ≠ some k) :
    ¬ xs <:+: k :: ys := by
  rw [List.infix_cons_iff]
  rintro (hPrefix | hInfix)
  · cases xs with
    | nil => exact hOther (List.length_eq_zero_iff.1 hLength.symm).symm
    | cons x xs =>
        rw [List.cons_prefix_cons] at hPrefix
        exact hHead (by rw [List.head?_cons, hPrefix.1])
  · exact hOther (hInfix.eq_of_length hLength)

theorem not_infix_concat
    {k : Char}
    {xs ys : List Char}
    (hLength : xs.length = ys.length)
    (hOther : xs ≠ ys)
    (hLast : xs.getLast? ≠ some k) :
    ¬ xs <:+: ys ++ [k] := by
  rw [← List.reverse_infix, List.reverse_append]
  refine not_infix_cons (by simpa using hLength) (by simpa using hOther) ?_
  rwa [List.head?_reverse]

/-
  A text whose sigmas are not all inner has other small letters
  beside some letter, and its own are not found there.
-/
theorem exists_not_infix_of_not_areSigmasInner
    {cs : List Char}
    (h : areSigmasInner [] cs = false) :
    ∃ k, isBlank k = false ∧
      (¬ lowercase cs <:+: lowercase (k :: cs) ∨
        ¬ lowercase cs <:+: lowercase (cs ++ [k])) := by
  have hNot : ¬ areSigmasInner [] cs = true := by simp [h]
  simp only [areSigmasInner_iff, not_forall, List.append_nil] at hNot
  rcases hNot with ⟨xs, ys, hSplit, hInner⟩
  rw [Bool.not_eq_true] at hInner
  have hLength :
      ∀ before after, (lowercase cs).length =
        (lowercaseBetween before cs after).length := by
    intro before after
    rw [lowercase, ← lowercaseBetween_nil]
    exact length_lowercaseBetween _ _ _ _ _
  have hKept :
      ∀ before after, lowercase cs = lowercaseBetween before cs after →
        endsWord (xs.reverse ++ before) (ys ++ after) =
          endsWord xs.reverse ys := by
    intro before after hSame
    rw [lowercase, ← lowercaseBetween_nil,
      lowercaseBetween_eq_lowercaseBetween_iff] at hSame
    have hSigma := hSame xs ys hSplit
    rw [List.append_nil, List.append_nil] at hSigma
    exact hSigma.symm
  rcases endsWord_ne_of_not_isInner hInner with hBefore | hAfter
  · rcases exists_isJoining_ne (lowercase cs).head? with ⟨k, hJoin, hHead⟩
    have hWhole :
        lowercase (k :: cs) = k :: lowercaseBetween [k] cs [] := by
      rw [lowercaseBetween_nil, lowercase, lowercaseFrom, hJoin.small]
      rfl
    refine ⟨k, hJoin.unblank, .inl ?_⟩
    rw [hWhole]
    refine not_infix_cons (hLength _ _) (fun hSame => ?_) hHead
    have hSigma := hKept _ _ hSame
    rw [List.append_nil] at hSigma
    exact hBefore k hJoin.letter hSigma
  · rcases exists_isJoining_ne (lowercase cs).getLast? with
      ⟨k, hJoin, hLast⟩
    have hWhole :
        lowercase (cs ++ [k]) = lowercaseBetween [] cs [k] ++ [k] := by
      rw [lowercase, lowercaseFrom_append, lowercaseFrom, hJoin.small]
      rfl
    refine ⟨k, hJoin.unblank, .inr ?_⟩
    rw [hWhole]
    refine not_infix_concat (hLength _ _) (fun hSame => ?_) hLast
    have hSigma := hKept _ _ hSame
    rw [List.append_nil] at hSigma
    exact hAfter k hJoin.letter hSigma

end TreeQuery.Text
