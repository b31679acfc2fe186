import TreeQuery.Text.Ranges

/-
  White space, trimming, and the words of a text.

  A blank is a character with the Unicode property
  `White_Space`.  Words are the longest parts without blanks;
  a normalised text is its words with one space between them.

  Key definitions include:
    * `isBlank`
    * `trimStart`
    * `trimEnd`
    * `trim`
    * `words`
    * `appendWord`
    * `normalizeBlanks`
-/

namespace TreeQuery.Text

------------------------------------------------------------
-- Blanks
------------------------------------------------------------

/- The ranges of the Unicode property `White_Space`. -/
def blankRanges : List (Nat × Nat) :=
  [(0x9, 0xD), (0x20, 0x20), (0x85, 0x85), (0xA0, 0xA0),
   (0x1680, 0x1680), (0x2000, 0x200A), (0x2028, 0x2029), (0x202F, 0x202F),
   (0x205F, 0x205F), (0x3000, 0x3000)]

/- A character is white space. -/
def isBlank (c : Char) : Bool :=
  inRanges blankRanges c.toNat

------------------------------------------------------------
-- Trimming
------------------------------------------------------------

/- The text without the blanks at its start. -/
def trimStart (cs : List Char) : List Char :=
  cs.dropWhile isBlank

/- The text without the blanks at its end. -/
def trimEnd (cs : List Char) : List Char :=
  (cs.reverse.dropWhile isBlank).reverse

/- The text without the blanks at both ends. -/
def trim (cs : List Char) : List Char :=
  trimEnd (trimStart cs)

/- Trimming the end never lengthens a text. -/
theorem length_trimEnd_le (cs : List Char) :
    (trimEnd cs).length ≤ cs.length := by
  unfold trimEnd
  have h :=
    (List.dropWhile_suffix (l := cs.reverse) isBlank).length_le
  simpa using h

------------------------------------------------------------
-- Words
------------------------------------------------------------

/- The words of a text that goes on from a part of a word. -/
def wordsFrom (word : List Char) : List Char → List (List Char)
| [] => if word.isEmpty then [] else [word]
| c :: cs =>
    if isBlank c then
      if word.isEmpty then wordsFrom [] cs
      else word :: wordsFrom [] cs
    else
      wordsFrom (word ++ [c]) cs

/- The longest parts of a text without blanks, in order. -/
def words (cs : List Char) : List (List Char) :=
  wordsFrom [] cs

/- The text with a word behind it, and a space between them if both are. -/
def appendWord (cs word : List Char) : List Char :=
  if cs.isEmpty then word else cs ++ ' ' :: word

/- The words of a text with a single space between them. -/
def normalizeBlanks (cs : List Char) : List Char :=
  (words cs).foldl appendWord []

end TreeQuery.Text
