import Mathlib.Data.List.DropRight
import Mathlib.Data.List.TakeWhile
import TreeQuery.Text.Blank

/-
  Texts without outer blanks are not changed by trimming, and
  every text is made up of blanks, what trimming leaves of it,
  and blanks again.

  Key definitions include:
    * `Text.AreBlanks`
    * `Text.endBlanks`

  Main statements:
    * `Text.trimStart_of_unblank`
    * `Text.trimEnd_of_unblank`
    * `Text.trimEnd_of_trim`
    * `Text.trimEnd_prefix`
    * `Text.trimEnd_eq_self_iff`
    * `Text.blanks_append_trim_append`
-/

namespace TreeQuery.Text

------------------------------------------------------------
-- Trimmed Texts
------------------------------------------------------------

theorem trimStart_of_unblank
    {x : Char}
    (h : isBlank x = false)
    (xs : List Char) :
    trimStart (x :: xs) = x :: xs := by
  simp [trimStart, h]

theorem trimEnd_of_unblank
    {x : Char}
    (h : isBlank x = false)
    (xs : List Char) :
    trimEnd (xs ++ [x]) = xs ++ [x] := by
  simp [trimEnd, h]

/- What trimming does not change has no blank at its ends. -/
theorem trimEnd_of_trim
    {text : List Char}
    (hTrim : trim text = text)
    (hSome : text ≠ []) :
    trimEnd text = text ∧
      ∃ x xs, text = x :: xs ∧ isBlank x = false := by
  have hLength := length_trimEnd_le (trimStart text)
  have hSuffix : trimStart text <:+ text :=
    List.dropWhile_suffix isBlank
  have hWhole : (trimEnd (trimStart text)).length = text.length := by
    rw [← trim, hTrim]
  have hStart : trimStart text = text :=
    hSuffix.eq_of_length (Nat.le_antisymm hSuffix.length_le (by omega))
  refine ⟨?_, ?_⟩
  · rw [trim, hStart] at hTrim
    exact hTrim
  · rcases List.exists_cons_of_ne_nil hSome with ⟨x, xs, rfl⟩
    refine ⟨x, xs, rfl, ?_⟩
    rw [Bool.eq_false_iff]
    intro hBlank
    have hShort := congrArg List.length hStart
    rw [trimStart, List.dropWhile_cons_of_pos hBlank] at hShort
    have hLess := (List.dropWhile_suffix (l := xs) isBlank).length_le
    simp only [List.length_cons] at hShort
    omega

/- Only blanks at the end are cut off. -/
theorem trimEnd_prefix (text : List Char) :
    trimEnd text <+: text := by
  have hSuffix := List.dropWhile_suffix (l := text.reverse) isBlank
  have hPrefix := List.reverse_prefix.2 hSuffix
  rwa [List.reverse_reverse] at hPrefix

/- A text without blanks at its end ends in another character. -/
theorem trimEnd_eq_self_iff {text : List Char} :
    trimEnd text = text ↔
      ∀ x, text.getLast? = some x → isBlank x = false := by
  rcases List.eq_nil_or_concat text with rfl | ⟨xs, x, rfl⟩
  · simp [trimEnd]
  · rw [List.concat_eq_append, List.getLast?_concat]
    constructor
    · intro hTrim y hLast
      cases hLast
      rw [Bool.eq_false_iff]
      intro hBlank
      have hLength := congrArg List.length hTrim
      have hShort :=
        (List.dropWhile_suffix (l := xs.reverse) isBlank).length_le
      simp only [trimEnd, List.reverse_append, List.reverse_singleton,
        List.singleton_append, List.dropWhile_cons_of_pos hBlank,
        List.length_reverse, List.length_append,
        List.length_singleton] at hLength hShort
      omega
    · intro hLast
      exact trimEnd_of_unblank (hLast x rfl) xs

/- A text ends as each of its suffixes does. -/
theorem getLast?_of_suffix
    {text rest : List Char}
    (hSuffix : rest <:+ text)
    {x : Char}
    (hLast : rest.getLast? = some x) :
    text.getLast? = some x := by
  rcases hSuffix with ⟨before, rfl⟩
  rw [List.getLast?_append, hLast]
  rfl

/- So the suffixes of a trimmed text are trimmed. -/
theorem trimEnd_of_suffix
    {text rest : List Char}
    (hTrim : trimEnd text = text)
    (hSuffix : rest <:+ text) :
    trimEnd rest = rest := by
  rw [trimEnd_eq_self_iff] at hTrim ⊢
  exact fun x hLast => hTrim x (getLast?_of_suffix hSuffix hLast)

/- Behind its blanks something is left. -/
theorem dropWhile_isBlank_ne_nil
    {text : List Char}
    (hTrim : trimEnd text = text)
    (hSome : text ≠ []) :
    text.dropWhile isBlank ≠ [] := by
  rw [trimEnd_eq_self_iff] at hTrim
  intro hNil
  have hBlank := List.dropWhile_eq_nil_iff.1 hNil
  have hLast := hTrim _ (List.getLast?_eq_some_getLast hSome)
  rw [hBlank _ (List.getLast_mem hSome)] at hLast
  exact absurd hLast (by simp)

/- What stands before a text that is not blank is not trimmed. -/
theorem trimEnd_append
    {xs ys : List Char}
    (h : trimEnd ys ≠ []) :
    trimEnd (xs ++ ys) = xs ++ trimEnd ys := by
  have hSome : (ys.reverse.dropWhile isBlank).isEmpty = false := by
    simpa [trimEnd] using h
  rw [trimEnd, List.reverse_append, List.dropWhile_append, hSome,
    if_neg (by simp), List.reverse_append, List.reverse_reverse, trimEnd]

/- Trimming leaves a text that is not changed by it. -/
theorem trimEnd_trim (text : List Char) :
    trimEnd (trim text) = trim text := by
  rw [trim, trimEnd, trimEnd, List.reverse_reverse,
    List.dropWhile_idempotent]

------------------------------------------------------------
-- Outer Blanks
------------------------------------------------------------

/- All characters of the text are blanks. -/
def AreBlanks (text : List Char) : Prop :=
  ∀ x ∈ text, isBlank x = true

namespace AreBlanks

variable {text rest : List Char}

theorem nil : AreBlanks [] := by
  intro x hMem
  simp at hMem

theorem of_suffix
    (h : AreBlanks text)
    (hSuffix : rest <:+ text) :
    AreBlanks rest := fun x hMem =>
  h x (hSuffix.subset hMem)

/- What the blanks begin with, if anything, is a blank. -/
theorem head
    (h : AreBlanks text)
    {x : Char}
    (hHead : text.head? = some x) :
    isBlank x = true :=
  h x (List.mem_of_mem_head? hHead)

theorem dropWhile (h : AreBlanks text) :
    text.dropWhile isBlank = [] :=
  List.dropWhile_eq_nil_iff.2 h

end AreBlanks

/- The blanks at the end of a text. -/
def endBlanks (text : List Char) : List Char :=
  (text.reverse.takeWhile isBlank).reverse

theorem areBlanks_endBlanks (text : List Char) :
    AreBlanks (endBlanks text) := by
  intro x hMem
  exact List.mem_takeWhile_imp (List.mem_reverse.1 hMem)

theorem trimEnd_append_endBlanks (text : List Char) :
    trimEnd text ++ endBlanks text = text := by
  rw [trimEnd, endBlanks, ← List.reverse_append,
    List.takeWhile_append_dropWhile, List.reverse_reverse]

/- Blanks at the start are none at the end if more is between them. -/
theorem endBlanks_trimStart
    {text : List Char}
    (h : trimStart text ≠ []) :
    endBlanks (trimStart text) = endBlanks text := by
  have hSplit :
      text.reverse =
        (trimStart text).reverse ++ (text.takeWhile isBlank).reverse := by
    rw [← List.reverse_append, trimStart, List.takeWhile_append_dropWhile]
  have hStop :
      ((trimStart text).reverse.takeWhile isBlank).length ≠
        (trimStart text).reverse.length := by
    intro hLength
    have hAll :=
      (List.takeWhile_prefix isBlank).eq_of_length hLength
    rw [List.takeWhile_eq_self_iff] at hAll
    have hBlanks : AreBlanks (trimStart text) := fun x hMem =>
      hAll x (List.mem_reverse.2 hMem)
    apply h
    rw [← hBlanks.dropWhile, trimStart, List.dropWhile_idempotent]
  rw [endBlanks, endBlanks, hSplit, List.takeWhile_append, if_neg hStop]

/- Without its blanks at the start a text is trimmed up to its end. -/
theorem trimStart_trim_append (text : List Char) :
    trimStart (trim text ++ endBlanks text) = trimStart text := by
  by_cases hNil : trimStart text = []
  · have hTrim : trim text = [] := by
      rw [trim, hNil]
      rfl
    rw [hTrim, hNil]
    exact (areBlanks_endBlanks text).dropWhile
  · rw [← endBlanks_trimStart hNil, trim, trimEnd_append_endBlanks]
    exact List.dropWhile_idempotent isBlank text

/- A text is what trimming leaves, with blanks on both sides. -/
theorem blanks_append_trim_append (text : List Char) :
    text.takeWhile isBlank ++ (trim text ++ endBlanks (trimStart text)) =
      text := by
  rw [trim, trimEnd_append_endBlanks, trimStart,
    List.takeWhile_append_dropWhile]

/- A character that is no blank is not cut off. -/
theorem exists_trimEnd_cons
    {x : Char}
    (h : isBlank x = false)
    (xs : List Char) :
    ∃ ys, trimEnd (x :: xs) = x :: ys := by
  have hSplit := trimEnd_append_endBlanks (x :: xs)
  cases hTrim : trimEnd (x :: xs) with
  | nil =>
      rw [hTrim, List.nil_append] at hSplit
      have hBlank := areBlanks_endBlanks (x :: xs) x (by simp [hSplit])
      rw [h] at hBlank
      exact absurd hBlank (by simp)
  | cons y ys =>
      rw [hTrim, List.cons_append, List.cons.injEq] at hSplit
      exact ⟨ys, by rw [hSplit.1]⟩

/- A text before such a character keeps its blanks at the end. -/
theorem exists_trim_append
    {x : Char}
    (h : isBlank x = false)
    {text : List Char}
    (hSome : trim text ≠ [])
    (xs : List Char) :
    ∃ ys, trim (text ++ x :: xs) =
      trim text ++ (endBlanks (trimStart text) ++ x :: ys) := by
  have hStart : trimStart text ≠ [] := by
    intro hNil
    rw [trim, hNil] at hSome
    exact hSome rfl
  have hDrop : trimStart (text ++ x :: xs) = trimStart text ++ x :: xs := by
    have hLeft : (text.dropWhile isBlank).isEmpty = false :=
      List.isEmpty_eq_false_iff.2 hStart
    rw [trimStart, List.dropWhile_append, hLeft, if_neg (by simp), trimStart]
  rcases exists_trimEnd_cons h xs with ⟨ys, hEnd⟩
  refine ⟨ys, ?_⟩
  rw [trim, hDrop, trimEnd_append (by simp [hEnd]), hEnd, trim,
    ← List.append_assoc, trimEnd_append_endBlanks]

/- Behind a character and blanks a text is trimmed at its end. -/
theorem trim_cons_append
    {x : Char}
    (h : isBlank x = false)
    {text : List Char}
    (hSome : trim text ≠ [])
    (blanks : List Char) :
    trim (x :: (blanks ++ text)) =
      x :: ((blanks ++ text.takeWhile isBlank) ++ trim text) := by
  have hSplit :
      x :: (blanks ++ text) =
        x :: (blanks ++ text.takeWhile isBlank) ++ trimStart text := by
    simp [trimStart]
  rw [trim, trimStart_of_unblank h, hSplit, trimEnd_append hSome]
  rfl

end TreeQuery.Text
