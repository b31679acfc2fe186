import Mathlib.Data.String.Basic
import TreeQuery.Proofs.Reading.Bounds

/-
  Operations on a cursor, one after the other.

  A cursor is asked what comes next, and is moved on over
  characters, texts, blanks, names, quoted and bracketed texts.
  Whatever is asked of it, and whether it is there or not, the
  cursor stays between two characters of the query, has what
  follows there left to read, and does not go back.

  Key definitions include:
    * `Cursor.Operation`
    * `Cursor.Operation.act`
    * `Cursor.StandsIn`
    * `Cursor.after`
    * `Cursor.between?`

  Main statements:
    * `Cursor.Operation.reaches_next`
    * `Cursor.reaches_foldl_next`
    * `Cursor.Reaches.standsIn`
    * `Cursor.operations_keep_place`
-/

namespace TreeQuery

------------------------------------------------------------
-- Bytes of Strings
------------------------------------------------------------

namespace Text

/- A string has the bytes of its characters. -/
theorem byteLength_toList (s : String) :
    byteLength s.toList = s.utf8ByteSize := by
  rw [← String.utf8Len_toList]
  induction s.toList with
  | nil => rfl
  | cons c cs ih =>
      rw [byteLength_cons, String.utf8Len_cons, ih, Nat.add_comm]

/- Behind any of its characters is a position of the string. -/
theorem isValid_byteLength
    {s : String}
    {before after : List Char}
    (h : s.toList = before ++ after) :
    String.Pos.Raw.IsValid s ⟨byteLength before⟩ := by
  rw [String.Pos.Raw.isValid_iff_exists_append]
  refine ⟨String.ofList before, String.ofList after, ?_, ?_⟩
  · rw [← String.ofList_append, ← h, String.ofList_toList]
  · rw [String.Pos.Raw.ext_iff, String.byteIdx_rawEndPos,
      ← byteLength_toList, String.toList_ofList]

end Text

namespace Cursor

------------------------------------------------------------
-- Operations
------------------------------------------------------------

/-
  What is asked of a cursor.  The first six operations look at
  what is left, the others move the cursor.
-/
inductive Operation where
| isAtEnd
| left
| peek
| peekNth (n : Nat)
| startsWith (text : String)
| startsWithAny (chars : List Char)
| advance
| chomp (text : String)
| takeWhile (p : Char → Bool)
| takeRest
| skipBlanks
| identifier
| quoted (resolve : Bool)
| balanced (opening closing : Char) (code : Code)

namespace Operation

/- What an operation gives, if it does not fail. -/
def Result : Operation → Type
| .isAtEnd | .startsWith _ | .startsWithAny _ | .chomp _ | .skipBlanks => Bool
| .peek | .peekNth _ | .advance => Option Char
| .left | .takeWhile _ | .takeRest => List Char
| .identifier | .quoted _ => String
| .balanced .. => Cursor

/- The reader that carries out an operation. -/
def act : (op : Operation) → Scan op.Result
| .isAtEnd => Scan.isAtEnd
| .left => fun c => .ok c.rest c
| .peek => Scan.peek?
| .peekNth n => fun c => .ok (c.peekNth? n) c
| .startsWith text => fun c => .ok (c.startsWith text.toList) c
| .startsWithAny chars => fun c => .ok (c.startsWithAny chars) c
| .advance => fun c => .ok c.peek? c.advance
| .chomp text => Scan.chomp text
| .takeWhile p => fun c => .ok (c.takeWhile p) (c.dropWhile p)
| .takeRest => Scan.remainder
| .skipBlanks => Scan.skipBlanks
| .identifier => Scan.identifier
| .quoted resolve => Scan.quoted resolve
| .balanced opening closing code => Scan.balanced opening closing code

/- The cursor that an operation leaves, also where it fails. -/
def next (op : Operation) (c : Cursor) : Cursor :=
  Scan.stop (op.act c)

end Operation

/- The cursor that operations on a query leave, from its start. -/
def after (query : String) (ops : List Operation) : Cursor :=
  ops.foldl (fun c op => op.next c) (before 0 query.toList)

------------------------------------------------------------
-- Places
------------------------------------------------------------

/-
  The cursor stands between two characters of a query, and
  what follows in the query is left to read.
-/
structure StandsIn (query : String) (c : Cursor) : Prop where
  isValid : String.Pos.Raw.IsValid query ⟨c.offset⟩
  offset_le : c.offset ≤ query.utf8ByteSize
  window?_eq :
    Text.window? c.offset (query.utf8ByteSize - c.offset) query.toList =
      some c.rest

/- The text of a query from one cursor to another. -/
def between? (query : String) (c d : Cursor) : Option (List Char) :=
  Text.window? c.offset (d.offset - c.offset) query.toList

section Reach

variable {query : String} {c d : Cursor}
variable (hStart : (before 0 query.toList).Reaches c)

include hStart

/- A part of what is left is a part of the query. -/
theorem Reaches.window?_eq
    {front text back : List Char}
    (h : c.rest = front ++ (text ++ back)) :
    Text.window? (c.offset + Text.byteLength front) (Text.byteLength text)
      query.toList = some text := by
  rcases hStart with ⟨read, hRest, hOffset⟩
  have hQuery : query.toList = (read ++ front) ++ (text ++ back) := by
    rw [List.append_assoc, ← h]
    exact hRest
  have hPlace :
      c.offset + Text.byteLength front = Text.byteLength (read ++ front) := by
    rw [hOffset, Text.byteLength_append, before, Nat.zero_add]
  rw [hQuery, hPlace]
  exact Text.window?_append (read ++ front) text back

/- What has been read and what is left make up the query. -/
theorem Reaches.offset_add :
    c.offset + Text.byteLength c.rest = query.utf8ByteSize := by
  rcases hStart with ⟨read, hRest, hOffset⟩
  have hQuery : query.toList = read ++ c.rest := hRest
  rw [← Text.byteLength_toList, hQuery, hOffset, Text.byteLength_append,
    before, Nat.zero_add]

/- Whatever a cursor has read, it stands in the query. -/
theorem Reaches.standsIn : c.StandsIn query where
  isValid := by
    rcases hStart with ⟨read, hRest, hOffset⟩
    rw [hOffset, before, Nat.zero_add]
    exact Text.isValid_byteLength hRest
  offset_le := by
    have hWhole := hStart.offset_add
    omega
  window?_eq := by
    have hLength :
        query.utf8ByteSize - c.offset = Text.byteLength c.rest := by
      have hWhole := hStart.offset_add
      omega
    have hSplit : c.rest = [] ++ (c.rest ++ []) :=
      (List.append_nil c.rest).symm
    rw [hLength]
    exact hStart.window?_eq hSplit

/- What is read on the way stands between the two cursors. -/
theorem Reaches.between?_eq
    {text : List Char}
    (hRest : c.rest = text ++ d.rest)
    (hOffset : d.offset = c.offset + Text.byteLength text) :
    between? query c d = some text := by
  have hSplit : c.rest = [] ++ (text ++ d.rest) := hRest
  rw [between?, hOffset, Nat.add_sub_cancel_left]
  exact hStart.window?_eq hSplit

/- So does what is read by moving to a later rest. -/
theorem Reaches.between?_moveTo
    {text rest : List Char}
    (hRest : c.rest = text ++ rest) :
    between? query c (c.moveTo rest) = some text := by
  refine hStart.between?_eq hRest ?_
  rw [moveTo, hRest, Text.byteLength_append]
  simp

end Reach

------------------------------------------------------------
-- Steps and Runs
------------------------------------------------------------

/- An operation moves the cursor forward or leaves it where it is. -/
theorem Operation.reaches_next (op : Operation) (c : Cursor) :
    c.Reaches (op.next c) := by
  cases op with
  | isAtEnd => exact .refl c
  | left => exact .refl c
  | peek => exact .refl c
  | peekNth n => exact .refl c
  | startsWith text => exact .refl c
  | startsWithAny chars => exact .refl c
  | advance => exact c.reaches_advance
  | chomp text => exact Scan.advances_chomp text c
  | takeWhile p => exact c.reaches_dropWhile p
  | takeRest => exact Scan.advances_remainder c
  | skipBlanks => exact Scan.advances_skipBlanks c
  | identifier => exact Scan.advances_identifier c
  | quoted resolve => exact Scan.advances_quoted resolve c
  | balanced opening closing code =>
      exact Scan.advances_balanced opening closing code c

/- So do several operations, one after the other. -/
theorem reaches_foldl_next (ops : List Operation) (c : Cursor) :
    c.Reaches (ops.foldl (fun c op => op.next c) c) := by
  induction ops generalizing c with
  | nil => exact .refl c
  | cons op ops ih => exact (op.reaches_next c).trans (ih (op.next c))

theorem reaches_after (query : String) (ops : List Operation) :
    (before 0 query.toList).Reaches (after query ops) :=
  reaches_foldl_next ops _

/- More operations go on from where the first ones stop. -/
theorem reaches_after_append (query : String) (ops more : List Operation) :
    (after query ops).Reaches (after query (ops ++ more)) := by
  rw [after, after, List.foldl_append]
  exact reaches_foldl_next more _

theorem Reaches.offset_le
    {c d : Cursor}
    (h : c.Reaches d) :
    c.offset ≤ d.offset := by
  rcases h with ⟨text, _, hOffset⟩
  omega

------------------------------------------------------------
-- Texts of the Query
------------------------------------------------------------

section Texts

variable {query : String} {c : Cursor}
variable (hStart : (before 0 query.toList).Reaches c)

include hStart

/- The longest text of some characters is given and passed. -/
theorem Reaches.between?_dropWhile (p : Char → Bool) :
    between? query c (c.dropWhile p) = some (c.takeWhile p) ∧
      (∀ x ∈ c.takeWhile p, p x = true) ∧
        (c.dropWhile p).peek?.all (fun x => !p x) = true := by
  refine ⟨hStart.between?_moveTo List.takeWhile_append_dropWhile.symm,
    fun x hMem => List.mem_takeWhile_imp hMem, ?_⟩
  change (c.rest.dropWhile p).head?.all (fun x => !p x) = true
  cases hHead : (c.rest.dropWhile p).head? with
  | none => rfl
  | some x =>
      have hEnds := List.head?_dropWhile_not p c.rest
      rw [hHead] at hEnds
      simpa using hEnds

/- What is left is given, and the cursor comes to the end. -/
theorem Reaches.between?_toEnd :
    between? query c c.toEnd = some c.rest ∧
      c.toEnd.offset = query.utf8ByteSize := by
  refine ⟨hStart.between?_moveTo (List.append_nil c.rest).symm, ?_⟩
  rw [← hStart.offset_add]
  rfl

/- Brackets, whichever they are, stand around what is given of them. -/
theorem Reaches.window?_balanced
    {opening closing : Char}
    {code : Code}
    {d part : Cursor}
    (h : Scan.balanced opening closing code c = .ok part d) :
    c.offset < part.offset ∧
      part.offset + Text.byteLength part.rest < d.offset ∧
        Text.window? part.offset (Text.byteLength part.rest) query.toList =
          some part.rest := by
  rcases Scan.split_of_balanced h with ⟨_, hRest, hOffset, hMoved⟩
  have hOpening := opening.utf8Size_pos
  have hClosing := closing.utf8Size_pos
  refine ⟨by omega, ?_, ?_⟩
  · rw [hMoved, hOffset, moveTo, hRest]
    simp only [Text.byteLength_cons, Text.byteLength_append]
    omega
  · have hSplit :
        c.rest = [opening] ++ (part.rest ++ closing :: d.rest) :=
      hRest
    have hWindow := hStart.window?_eq hSplit
    rwa [Text.byteLength_cons, Text.byteLength_nil, Nat.add_zero,
      ← hOffset] at hWindow

end Texts

/-
  After any operations on a query, those that failed among
  them, the cursor stands between two characters of the query
  and has the rest of it left to read.  Further operations do
  not move it back.  A text of some characters, the rest, and
  what stands between brackets are given as they stand in the
  query, the first two from the place before the operation to
  the place behind it.
-/
theorem operations_keep_place (query : String) (ops : List Operation) :
    (after query ops).StandsIn query ∧
      (∀ more, (after query ops).offset ≤
        (after query (ops ++ more)).offset) ∧
      (∀ p, ∃ (text : List Char) (d : Cursor),
        Operation.act (.takeWhile p) (after query ops) = .ok text d ∧
          between? query (after query ops) d = some text ∧
            (∀ x ∈ text, p x = true) ∧
              d.peek?.all (fun x => !p x) = true) ∧
      (∃ (text : List Char) (d : Cursor),
        Operation.act .takeRest (after query ops) = .ok text d ∧
          between? query (after query ops) d = some text ∧
            d.offset = query.utf8ByteSize) ∧
      (∀ opening closing code (part d : Cursor),
        Operation.act (.balanced opening closing code) (after query ops) =
            .ok part d →
          (after query ops).offset < part.offset ∧
            part.offset + Text.byteLength part.rest < d.offset ∧
              Text.window? part.offset (Text.byteLength part.rest)
                query.toList = some part.rest) := by
  have hStart := reaches_after query ops
  refine ⟨hStart.standsIn, ?_, ?_, ?_, ?_⟩
  · intro more
    exact (reaches_after_append query ops more).offset_le
  · intro p
    exact ⟨_, _, rfl, hStart.between?_dropWhile p⟩
  · exact ⟨_, _, rfl, hStart.between?_toEnd⟩
  · intro opening closing code part d hRead
    exact hStart.window?_balanced hRead

/-
  Where a quote is asked for and there is none, the character
  that stands there has been passed all the same.
-/
theorem operations_keep_place_failed_quote :
    after "ß(ü) é" [.quoted true] = ⟨2, "(ü) é".toList⟩ ∧
      2 < 3 ∧ 3 + 2 < 6 ∧
        Text.window? 3 2 "ß(ü) é".toList = some "ü".toList := by
  have hPlace : after "ß(ü) é" [.quoted true] = ⟨2, "(ü) é".toList⟩ := by
    with_unfolding_all rfl
  have hRead :
      Operation.act (.balanced '(' ')' .unbalancedParenthesis)
          (after "ß(ü) é" [.quoted true]) =
        .ok ⟨3, "ü".toList⟩ ⟨6, " é".toList⟩ := by
    rw [hPlace]
    with_unfolding_all rfl
  have hWindow :=
    (operations_keep_place "ß(ü) é" [.quoted true]).2.2.2.2 _ _ _ _ _ hRead
  rw [hPlace] at hWindow
  exact ⟨hPlace, hWindow⟩

end Cursor

end TreeQuery
