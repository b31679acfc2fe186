import Mathlib.Data.List.Infix
import TreeQuery.Proofs.Text.Ascii
import TreeQuery.Selector.Options
import TreeQuery.Tree.Content

/-
  Comparisons without regard to case, and small letters.

  A head or a tail of a value is cut off by the bytes of the
  text that it is compared with.  Small ASCII letters have as
  many bytes as capitals, so a value in small letters can be
  cut at the same places, and a cut that falls within a
  character would not have been a match.

  Key definitions include:
    * `Text.IsBoundary`

  Main statements:
    * `Text.headIgnoringCase_iff`
    * `Text.tailIgnoringCase_iff`
    * `CasePolicy.insensitive_is_sensitive_on_small_letters`
-/

namespace TreeQuery

------------------------------------------------------------
-- Cuts
------------------------------------------------------------

namespace Text

variable {cs wanted : List Char} {n : Nat}

/- A character ends behind this number of bytes, or none has begun. -/
def IsBoundary (n : Nat) (cs : List Char) : Prop :=
  ∃ head tail, head ++ tail = cs ∧ byteLength head = n

/- A text can be cut where a character ends, and nowhere else. -/
theorem isSome_cutAtByte?_iff :
    (cutAtByte? n cs).isSome = true ↔ IsBoundary n cs := by
  rw [Option.isSome_iff_exists]
  constructor
  · rintro ⟨⟨head, tail⟩, hCut⟩
    exact ⟨head, tail, cutAtByte?_eq_some_iff.1 hCut⟩
  · rintro ⟨head, tail, hSplit⟩
    exact ⟨(head, tail), cutAtByte?_eq_some_iff.2 hSplit⟩

/- A capital has the bytes of its small letter. -/
theorem utf8Size_toLower (c : Char) : c.toLower.utf8Size = c.utf8Size := by
  by_cases hAscii : c.toNat < 128
  · have hAll :
        (List.range 128).all fun n =>
          (Char.ofNat n).toLower.utf8Size == (Char.ofNat n).utf8Size := by
      decide +kernel
    exact eq_of_beq
      (forall_ascii (p := fun c => c.toLower.utf8Size == c.utf8Size)
        hAll hAscii)
  · rw [toLower_of_not_ascii hAscii]

@[simp]
theorem byteLength_asciiLower (cs : List Char) :
    byteLength (asciiLower cs) = byteLength cs := by
  induction cs with
  | nil => rfl
  | cons c cs ih =>
      rw [asciiLower, List.map_cons, byteLength_cons, byteLength_cons,
        utf8Size_toLower, ← asciiLower, ih]

/- So small letters end where the characters of a text do. -/
theorem isBoundary_asciiLower :
    IsBoundary n (asciiLower cs) ↔ IsBoundary n cs := by
  constructor
  · rintro ⟨head, tail, hSplit, rfl⟩
    rcases List.map_eq_append_iff.1 hSplit.symm with
      ⟨before, after, rfl, rfl, _⟩
    exact ⟨before, after, rfl, (byteLength_asciiLower before).symm⟩
  · rintro ⟨head, tail, rfl, rfl⟩
    exact ⟨asciiLower head, asciiLower tail, List.map_append.symm,
      byteLength_asciiLower head⟩

theorem byteLength_eq_of_asciiLower
    (h : asciiLower cs = asciiLower wanted) :
    byteLength cs = byteLength wanted := by
  rw [← byteLength_asciiLower cs, h, byteLength_asciiLower]

------------------------------------------------------------
-- Heads and Tails
------------------------------------------------------------

/- What a text begins with up to case its small letters begin with. -/
theorem headIgnoringCase_iff :
    headIgnoringCase wanted cs = true ↔
      asciiLower wanted <+: asciiLower cs := by
  unfold headIgnoringCase
  constructor
  · intro h
    split at h
    · next head tail hCut =>
        rcases cutAtByte?_eq_some_iff.1 hCut with ⟨rfl, _⟩
        rw [← equalIgnoringCase_iff.1 h]
        exact (List.prefix_append head tail).map Char.toLower
    · simp at h
  · rintro ⟨rest, hSplit⟩
    rcases List.map_eq_append_iff.1 hSplit.symm with
      ⟨head, tail, rfl, hHead, _⟩
    have hCut :
        cutAtByte? (byteLength wanted) (head ++ tail) =
          some (head, tail) :=
      cutAtByte?_eq_some_iff.2 ⟨rfl, byteLength_eq_of_asciiLower hHead⟩
    rw [hCut]
    exact equalIgnoringCase_iff.2 hHead

/- What a text ends with up to case its small letters end with. -/
theorem tailIgnoringCase_iff :
    tailIgnoringCase wanted cs = true ↔
      asciiLower wanted <:+ asciiLower cs := by
  unfold tailIgnoringCase
  constructor
  · intro h
    split at h
    · split at h
      · next head tail hCut =>
          rcases cutAtByte?_eq_some_iff.1 hCut with ⟨rfl, _⟩
          rw [← equalIgnoringCase_iff.1 h]
          exact (List.suffix_append head tail).map Char.toLower
      · simp at h
    · simp at h
  · rintro ⟨rest, hSplit⟩
    rcases List.map_eq_append_iff.1 hSplit.symm with
      ⟨head, tail, rfl, _, hTail⟩
    have hBytes : byteLength tail = byteLength wanted :=
      byteLength_eq_of_asciiLower hTail
    have hCut :
        cutAtByte? (byteLength (head ++ tail) - byteLength wanted)
            (head ++ tail) =
          some (head, tail) := by
      rw [cutAtByte?_eq_some_iff, byteLength_append]
      exact ⟨rfl, by omega⟩
    rw [if_pos (by rw [byteLength_append]; omega), hCut]
    exact equalIgnoringCase_iff.2 hTail

end Text

------------------------------------------------------------
-- Policies
------------------------------------------------------------

namespace CasePolicy

/- A text as a policy looks at it. -/
def seen (policy : CasePolicy) (s : String) : List Char :=
  match policy with
  | .sensitive => s.toList
  | .insensitive => Text.asciiLower s.toList

/- What is looked at without case is what small letters show. -/
theorem seen_asciiLowerString (s : String) :
    sensitive.seen (Text.asciiLowerString s) = insensitive.seen s := by
  rw [seen, Text.asciiLowerString, String.toList_ofList, seen]

variable (policy : CasePolicy) {value expected : String}

theorem byteLength_seen (s : String) :
    Text.byteLength (policy.seen s) = Text.byteLength s.toList := by
  cases policy with
  | sensitive => rfl
  | insensitive => exact Text.byteLength_asciiLower s.toList

theorem isBoundary_seen
    {n : Nat}
    {s : String} :
    Text.IsBoundary n (policy.seen s) ↔ Text.IsBoundary n s.toList := by
  cases policy with
  | sensitive => rfl
  | insensitive => exact Text.isBoundary_asciiLower

theorem equal_iff :
    policy.equal value expected = true ↔
      policy.seen value = policy.seen expected := by
  cases policy with
  | sensitive => simp [equal, seen, String.ext_iff]
  | insensitive => simp [equal, seen]

theorem startsWith_iff :
    policy.startsWith value expected = true ↔
      policy.seen expected <+: policy.seen value := by
  cases policy with
  | sensitive => simp [startsWith, seen]
  | insensitive => exact Text.headIgnoringCase_iff

theorem endsWith_iff :
    policy.endsWith value expected = true ↔
      policy.seen expected <:+ policy.seen value := by
  cases policy with
  | sensitive => simp [endsWith, seen]
  | insensitive => exact Text.tailIgnoringCase_iff

theorem contains_iff :
    policy.contains value expected = true ↔
      policy.seen expected <:+: policy.seen value := by
  cases policy with
  | sensitive => exact Text.occursIn_iff_infix
  | insensitive => exact Text.occursIn_iff_infix

/- A value can be cut behind what it starts with. -/
theorem isBoundary_of_startsWith
    (h : policy.startsWith value expected = true) :
    Text.IsBoundary (Text.byteLength expected.toList) value.toList := by
  rcases policy.startsWith_iff.1 h with ⟨rest, hSplit⟩
  rw [← policy.isBoundary_seen]
  exact ⟨policy.seen expected, rest, hSplit,
    policy.byteLength_seen expected⟩

/- A value can be cut before what it ends with. -/
theorem isBoundary_of_endsWith
    (h : policy.endsWith value expected = true) :
    Text.byteLength expected.toList ≤ Text.byteLength value.toList ∧
      Text.IsBoundary
        (Text.byteLength value.toList - Text.byteLength expected.toList)
        value.toList := by
  rcases policy.endsWith_iff.1 h with ⟨rest, hSplit⟩
  have hBytes :
      Text.byteLength rest + Text.byteLength expected.toList =
        Text.byteLength value.toList := by
    rw [← policy.byteLength_seen expected, ← Text.byteLength_append, hSplit,
      policy.byteLength_seen]
  refine ⟨by omega, ?_⟩
  rw [← policy.isBoundary_seen]
  exact ⟨rest, policy.seen expected, hSplit, by omega⟩

/- The start of an attribute name is tested without regard to case. -/
theorem hasAttributeStarting_eq
    (t : Tree)
    (n : Node)
    (start : String) :
    t.hasAttributeStarting n start =
      ((t.attributes n).filterMap t.name?).any fun name =>
        insensitive.startsWith name.text start :=
  rfl

/-
  Every comparison without regard to case is the same
  comparison of the small letters, and so is the test of how
  attribute names start.  Texts are cut where characters end,
  and where they cannot be cut nothing would have matched.
  Under both policies what is equal starts and ends alike, and
  what a value starts or ends with stands in it.
-/
theorem insensitive_is_sensitive_on_small_letters
    (value expected : String) :
    (insensitive.equal value expected =
          sensitive.equal (Text.asciiLowerString value)
            (Text.asciiLowerString expected) ∧
        insensitive.startsWith value expected =
          sensitive.startsWith (Text.asciiLowerString value)
            (Text.asciiLowerString expected) ∧
        insensitive.endsWith value expected =
          sensitive.endsWith (Text.asciiLowerString value)
            (Text.asciiLowerString expected) ∧
        insensitive.contains value expected =
          sensitive.contains (Text.asciiLowerString value)
            (Text.asciiLowerString expected)) ∧
      (∀ (t : Tree) (n : Node),
        t.hasAttributeStarting n expected =
          ((t.attributes n).filterMap t.name?).any fun name =>
            sensitive.startsWith (Text.asciiLowerString name.text)
              (Text.asciiLowerString expected)) ∧
      (∀ n, (Text.cutAtByte? n value.toList).isSome = true ↔
        Text.IsBoundary n value.toList) ∧
      ∀ policy : CasePolicy,
        (policy.startsWith value expected = true →
            Text.IsBoundary (Text.byteLength expected.toList)
              value.toList) ∧
          (policy.endsWith value expected = true →
            Text.byteLength expected.toList ≤
                Text.byteLength value.toList ∧
              Text.IsBoundary
                (Text.byteLength value.toList -
                  Text.byteLength expected.toList)
                value.toList) ∧
          (policy.equal value expected = true →
            policy.startsWith value expected = true ∧
              policy.endsWith value expected = true) ∧
          (policy.startsWith value expected = true ∨
              policy.endsWith value expected = true →
            policy.contains value expected = true) := by
  have hStart :
      ∀ v x, insensitive.startsWith v x =
        sensitive.startsWith (Text.asciiLowerString v)
          (Text.asciiLowerString x) := by
    intro v x
    rw [Bool.eq_iff_iff, startsWith_iff, startsWith_iff,
      seen_asciiLowerString, seen_asciiLowerString]
  refine ⟨⟨?_, hStart value expected, ?_, ?_⟩, ?_,
    fun n => Text.isSome_cutAtByte?_iff, fun policy => ⟨?_, ?_, ?_, ?_⟩⟩
  · rw [Bool.eq_iff_iff, equal_iff, equal_iff, seen_asciiLowerString,
      seen_asciiLowerString]
  · rw [Bool.eq_iff_iff, endsWith_iff, endsWith_iff, seen_asciiLowerString,
      seen_asciiLowerString]
  · rw [Bool.eq_iff_iff, contains_iff, contains_iff, seen_asciiLowerString,
      seen_asciiLowerString]
  · intro t n
    simp only [hasAttributeStarting_eq, hStart]
  · exact policy.isBoundary_of_startsWith
  · exact policy.isBoundary_of_endsWith
  · rw [equal_iff, startsWith_iff, endsWith_iff]
    intro hSame
    rw [hSame]
    exact ⟨List.prefix_rfl, List.suffix_rfl⟩
  · rw [startsWith_iff, endsWith_iff, contains_iff]
    rintro (hPrefix | hSuffix)
    · exact hPrefix.isInfix
    · exact hSuffix.isInfix

/-
  The letter `b` is the end of `éB` up to case.  The first byte
  of `éB` ends no character, so it does not start with `b`.
-/
theorem insensitive_is_sensitive_on_small_letters_cut :
    insensitive.endsWith "éB" "b" = true ∧
      insensitive.contains "éB" "b" = true ∧
        ¬ Text.IsBoundary 1 "éB".toList ∧
          insensitive.startsWith "éB" "b" = false := by
  rcases insensitive_is_sensitive_on_small_letters "éB" "b" with
    ⟨_, _, hCut, hPolicies⟩
  rcases hPolicies insensitive with ⟨hStart, _, _, hContains⟩
  have hEnd : insensitive.endsWith "éB" "b" = true := by decide
  have hInside : ¬ Text.IsBoundary 1 "éB".toList := by
    rw [← hCut]
    decide
  refine ⟨hEnd, hContains (.inr hEnd), hInside, ?_⟩
  rw [Bool.eq_false_iff]
  exact fun h => hInside (hStart h)

end CasePolicy

end TreeQuery
