import TreeQuery.Text.Blank
import TreeQuery.Text.Hex

/-
  Escapes: a backslash with what it stands for.

  In names and quoted texts a backslash writes a character by
  its code point or as it is.  In free text it only marks the
  next character.  A text is quoted by marking its quotes and
  backslashes.

  Key definitions include:
    * `readEscape?`
    * `dropBackslashes`
    * `escapeQuoted`

  Main statement:
    * `readEscape?_suffix`
-/

namespace TreeQuery.Text

------------------------------------------------------------
-- Single Escapes
------------------------------------------------------------

/- The character for a code point that is not one. -/
def replacementChar : Char :=
  '\uFFFD'

/- The character that hexadecimal digits name, never NUL. -/
def namedChar (digits : List Char) : Char :=
  match charOfCode? (hexNumber digits) with
  | some c => if c = '\x00' then replacementChar else c
  | none => replacementChar

/- The text without a blank at its start, if there is one. -/
def dropBlank : List Char → List Char
| [] => []
| c :: cs => if isBlank c then cs else c :: cs

/-
  The character of an escape and the text after it, from
  behind the backslash.  Up to six hexadecimal digits name a
  code point and take a blank with them; any other character
  stands for itself.
-/
def readEscape? (cs : List Char) : Option (Char × List Char) :=
  let digits := (cs.take 6).takeWhile isHexDigit
  if digits.isEmpty then
    match cs with
    | [] => none
    | c :: rest => some (c, rest)
  else
    some (namedChar digits, dropBlank (cs.drop digits.length))

theorem dropBlank_suffix (cs : List Char) :
    dropBlank cs <:+ cs := by
  cases cs with
  | nil => exact List.suffix_rfl
  | cons c cs =>
      simp only [dropBlank]
      split
      · exact List.suffix_cons c cs
      · exact List.suffix_rfl

/- An escape leaves a proper suffix of the text. -/
theorem readEscape?_suffix
    {cs rest : List Char}
    {c : Char}
    (h : readEscape? cs = some (c, rest)) :
    rest <:+ cs ∧ rest.length < cs.length := by
  unfold readEscape? at h
  simp only at h
  split at h
  · cases cs with
    | nil => simp at h
    | cons d cs =>
        simp only [Option.some.injEq, Prod.mk.injEq] at h
        rcases h with ⟨_, rfl⟩
        exact ⟨List.suffix_cons d cs, by simp⟩
  · next hDigits =>
      simp only [Option.some.injEq, Prod.mk.injEq] at h
      rcases h with ⟨_, rfl⟩
      generalize hGen : (cs.take 6).takeWhile isHexDigit = digits at *
      have hBlank := dropBlank_suffix (cs.drop digits.length)
      have hDrop := List.drop_suffix digits.length cs
      have hLength := hBlank.length_le
      have hPos : 0 < digits.length := by
        cases digits with
        | nil => simp at hDigits
        | cons d ds => simp
      have hShort : digits.length ≤ cs.length := by
        have hPrefix :=
          (List.takeWhile_prefix (l := cs.take 6) isHexDigit).length_le
        rw [hGen] at hPrefix
        simp only [List.length_take] at hPrefix
        omega
      simp only [List.length_drop] at hLength
      exact ⟨hBlank.trans hDrop, by omega⟩

------------------------------------------------------------
-- Free Text
------------------------------------------------------------

/-
  The text without backslashes that mark a character.  A
  backslash at the end is dropped.
-/
def dropBackslashes : List Char → List Char
| [] => []
| '\\' :: c :: rest => c :: dropBackslashes rest
| ['\\'] => []
| c :: rest => c :: dropBackslashes rest

------------------------------------------------------------
-- Quoting
------------------------------------------------------------

/- The text with a backslash before quotes and backslashes. -/
def escapeQuoted : List Char → List Char
| [] => []
| c :: rest =>
    if c = '\\' ∨ c = '"' then '\\' :: c :: escapeQuoted rest
    else c :: escapeQuoted rest

/- A string between double quotes, with escapes. -/
def quoted (s : String) : String :=
  String.ofList ('"' :: escapeQuoted s.toList ++ ['"'])

end TreeQuery.Text
