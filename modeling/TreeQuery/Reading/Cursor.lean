import TreeQuery.Text.Ascii
import TreeQuery.Text.Blank

/-
  Cursors: how far a text has been read.

  A cursor holds the text that is still to be read and the
  byte offset at which it begins.  A part of a query is read
  with a cursor of its own that keeps the offsets of the whole
  query.

  Key definitions include:
    * `Cursor`
    * `Cursor.advance`
    * `Cursor.chomp?`
    * `Cursor.takeWhile`
    * `Cursor.Reaches`

  Main statements:
    * `Cursor.reaches_advance`
    * `Cursor.reaches_chomp?`
    * `Cursor.reaches_dropWhile`
-/

namespace TreeQuery

/- The text still to be read, and the offset of its start. -/
structure Cursor where
  offset : Nat
  rest : List Char
deriving DecidableEq, Repr

namespace Cursor

------------------------------------------------------------
-- Looking
------------------------------------------------------------

/- A cursor before a text that stands at an offset. -/
def before (offset : Nat) (text : List Char) : Cursor :=
  ⟨offset, text⟩

/- Nothing is left to read. -/
def isAtEnd (c : Cursor) : Bool :=
  c.rest.isEmpty

/- The next character. -/
def peek? (c : Cursor) : Option Char :=
  c.rest.head?

/- The character after `n` others. -/
def peekNth? (c : Cursor) (n : Nat) : Option Char :=
  c.rest[n]?

/- A text comes next, up to the case of ASCII letters. -/
def startsWith (c : Cursor) (text : List Char) : Bool :=
  Text.headIgnoringCase text c.rest

/- The next character is one of those given. -/
def startsWithAny (c : Cursor) (chars : List Char) : Bool :=
  c.peek?.any chars.contains

------------------------------------------------------------
-- Moving
------------------------------------------------------------

/- Read on to a rest of the text. -/
def moveTo (c : Cursor) (rest : List Char) : Cursor :=
  ⟨c.offset + (Text.byteLength c.rest - Text.byteLength rest), rest⟩

/- Read everything. -/
def toEnd (c : Cursor) : Cursor :=
  c.moveTo []

/- Read one character, if there is one. -/
def advance (c : Cursor) : Cursor :=
  match c.rest with
  | [] => c
  | d :: rest => ⟨c.offset + d.utf8Size, rest⟩

/- Read a text that comes next, up to the case of ASCII letters. -/
def chomp? (c : Cursor) (text : List Char) : Option Cursor :=
  match Text.cutAtByte? (Text.byteLength text) c.rest with
  | some (head, tail) =>
      if Text.equalIgnoringCase head text then
        some ⟨c.offset + Text.byteLength text, tail⟩
      else
        none
  | none => none

/- The longest next text of characters that satisfy `p`. -/
def takeWhile (c : Cursor) (p : Char → Bool) : List Char :=
  c.rest.takeWhile p

/- Read the characters that satisfy `p`. -/
def dropWhile (c : Cursor) (p : Char → Bool) : Cursor :=
  c.moveTo (c.rest.dropWhile p)

/- Read blanks. -/
def skipBlanks (c : Cursor) : Cursor :=
  c.dropWhile Text.isBlank

/- A blank comes next. -/
def atBlank (c : Cursor) : Bool :=
  c.peek?.any Text.isBlank

------------------------------------------------------------
-- Reach
------------------------------------------------------------

/-
  The second cursor stands where the first one comes to by
  reading some text.
-/
def Reaches (c d : Cursor) : Prop :=
  ∃ text,
    c.rest = text ++ d.rest ∧
      d.offset = c.offset + Text.byteLength text

theorem Reaches.refl (c : Cursor) : c.Reaches c :=
  ⟨[], by simp⟩

theorem Reaches.trans
    {c d e : Cursor}
    (hcd : c.Reaches d)
    (hde : d.Reaches e) :
    c.Reaches e := by
  rcases hcd with ⟨xs, hRest, hOffset⟩
  rcases hde with ⟨ys, hRest', hOffset'⟩
  refine ⟨xs ++ ys, ?_, ?_⟩
  · rw [hRest, hRest', List.append_assoc]
  · rw [hOffset', hOffset, Text.byteLength_append, Nat.add_assoc]

/- Reading never lengthens what is left. -/
theorem Reaches.length_le
    {c d : Cursor}
    (h : c.Reaches d) :
    d.rest.length ≤ c.rest.length := by
  rcases h with ⟨xs, hRest, _⟩
  simp [hRest]

/- A cursor reaches every rest of its text. -/
theorem reaches_moveTo
    {c : Cursor}
    {rest : List Char}
    (h : rest <:+ c.rest) :
    c.Reaches (c.moveTo rest) := by
  rcases h with ⟨xs, hRest⟩
  refine ⟨xs, hRest.symm, ?_⟩
  simp only [moveTo, ← hRest, Text.byteLength_append]
  omega

theorem reaches_toEnd (c : Cursor) :
    c.Reaches c.toEnd :=
  reaches_moveTo (List.nil_suffix)

theorem reaches_advance (c : Cursor) :
    c.Reaches c.advance := by
  unfold advance
  split
  · exact Reaches.refl c
  · next d rest h => exact ⟨[d], by simp [h]⟩

theorem reaches_dropWhile
    (c : Cursor)
    (p : Char → Bool) :
    c.Reaches (c.dropWhile p) :=
  reaches_moveTo (List.dropWhile_suffix p)

theorem reaches_chomp?
    {c d : Cursor}
    {text : List Char}
    (h : c.chomp? text = some d) :
    c.Reaches d := by
  unfold chomp? at h
  split at h
  · next head tail hCut =>
      rcases Text.cutAtByte?_eq_some_iff.1 hCut with ⟨hSplit, hBytes⟩
      split at h
      · cases h
        exact ⟨head, hSplit.symm, by simp [hBytes]⟩
      · simp at h
  · simp at h

/- Reading a character that is there shortens what is left. -/
theorem length_advance_lt
    {c : Cursor}
    {d : Char}
    (h : c.peek? = some d) :
    c.advance.rest.length < c.rest.length := by
  unfold peek? at h
  unfold advance
  split
  · next hNil => simp [hNil] at h
  · next hCons => simp [hCons]

/- Reading a text that is not empty shortens what is left. -/
theorem length_chomp?_lt
    {c d : Cursor}
    {text : List Char}
    (hText : text ≠ [])
    (h : c.chomp? text = some d) :
    d.rest.length < c.rest.length := by
  unfold chomp? at h
  split at h
  · next head tail hCut =>
      rcases Text.cutAtByte?_eq_some_iff.1 hCut with ⟨hSplit, hBytes⟩
      split at h
      · cases h
        cases head with
        | nil =>
            have hZero : Text.byteLength text = 0 := by
              simpa using hBytes.symm
            exact absurd (Text.byteLength_eq_zero_iff.1 hZero) hText
        | cons x xs =>
            simp only [← hSplit, List.length_append, List.length_cons]
            omega
      · simp at h
  · simp at h

end Cursor

end TreeQuery
