/-
  UTF-8 lengths of texts, and cuts at byte counts.

  A text is a list of characters; its offsets are counted in
  UTF-8 bytes.  A cut at a byte count exists only where a
  character ends.

  Key definitions include:
    * `byteLength`
    * `cutAtByte?`

  Main statements:
    * `byteLength_append`
    * `cutAtByte?_eq_some_iff`
-/

namespace TreeQuery.Text

------------------------------------------------------------
-- Byte Lengths
------------------------------------------------------------

/- The number of UTF-8 bytes of a text. -/
def byteLength : List Char → Nat
| [] => 0
| c :: cs => c.utf8Size + byteLength cs

@[simp]
theorem byteLength_nil :
    byteLength [] = 0 :=
  rfl

@[simp]
theorem byteLength_cons
    (c : Char)
    (cs : List Char) :
    byteLength (c :: cs) = c.utf8Size + byteLength cs :=
  rfl

/- Byte lengths add up. -/
@[simp]
theorem byteLength_append
    (xs ys : List Char) :
    byteLength (xs ++ ys) = byteLength xs + byteLength ys := by
  induction xs with
  | nil => simp
  | cons c cs ih => simp [ih, Nat.add_assoc]

/- Only the empty text has no bytes. -/
theorem byteLength_eq_zero_iff
    {cs : List Char} :
    byteLength cs = 0 ↔ cs = [] := by
  cases cs with
  | nil => simp
  | cons c cs =>
      have hPos := c.utf8Size_pos
      simp only [byteLength_cons, reduceCtorEq, iff_false]
      omega

------------------------------------------------------------
-- Cuts
------------------------------------------------------------

/-
  The text before and after the first `n` bytes, if a
  character ends there.
-/
def cutAtByte? : Nat → List Char → Option (List Char × List Char)
| 0, cs => some ([], cs)
| _ + 1, [] => none
| n + 1, c :: cs =>
    if c.utf8Size ≤ n + 1 then
      (cutAtByte? (n + 1 - c.utf8Size) cs).map
        fun (head, tail) => (c :: head, tail)
    else
      none

/-
  A cut divides the text, and its first half has exactly the
  bytes asked for.
-/
theorem cutAtByte?_eq_some_iff
    {n : Nat}
    {cs head tail : List Char} :
    cutAtByte? n cs = some (head, tail) ↔
      head ++ tail = cs ∧ byteLength head = n := by
  induction cs generalizing n head tail with
  | nil =>
      cases n with
      | zero =>
          simp only [cutAtByte?, Option.some.injEq, Prod.mk.injEq,
            List.append_eq_nil_iff]
          constructor
          · rintro ⟨rfl, rfl⟩
            simp
          · rintro ⟨⟨rfl, rfl⟩, _⟩
            simp
      | succ n =>
          simp only [cutAtByte?, reduceCtorEq, List.append_eq_nil_iff,
            false_iff, not_and]
          rintro ⟨rfl, rfl⟩
          simp
  | cons c cs ih =>
      have hPos := c.utf8Size_pos
      cases n with
      | zero =>
          simp only [cutAtByte?, Option.some.injEq, Prod.mk.injEq,
            byteLength_eq_zero_iff]
          constructor
          · rintro ⟨rfl, rfl⟩
            simp
          · rintro ⟨h, rfl⟩
            simp_all
      | succ n =>
          unfold cutAtByte?
          by_cases hFits : c.utf8Size ≤ n + 1
          · simp only [hFits, ↓reduceIte, Option.map_eq_some_iff,
              Prod.exists, Prod.mk.injEq]
            constructor
            · rintro ⟨head', tail', hCut, rfl, rfl⟩
              rcases ih.1 hCut with ⟨rfl, hLen⟩
              simp only [List.cons_append, byteLength_cons, true_and]
              omega
            · rintro ⟨hSplit, hLen⟩
              cases head with
              | nil => simp at hLen
              | cons d head =>
                  simp only [List.cons_append, List.cons.injEq]
                    at hSplit
                  rcases hSplit with ⟨rfl, hRest⟩
                  simp only [byteLength_cons] at hLen
                  exact
                    ⟨head, tail,
                      ih.2 ⟨hRest, by omega⟩, rfl, rfl⟩
          · simp only [hFits, ↓reduceIte, reduceCtorEq, false_iff,
              not_and]
            intro hSplit hLen
            cases head with
            | nil => simp at hLen
            | cons d head =>
                simp only [List.cons_append, List.cons.injEq]
                  at hSplit
                rcases hSplit with ⟨rfl, _⟩
                simp only [byteLength_cons] at hLen
                omega

end TreeQuery.Text
