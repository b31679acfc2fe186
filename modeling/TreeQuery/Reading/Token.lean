import TreeQuery.Reading.Scan
import TreeQuery.Text.Escape

/-
  Names, quoted texts and bracketed texts.

  Key definitions include:
    * `isIdentifierChar`
    * `Scan.identifier`
    * `Scan.quoted`
    * `Scan.balanced`

  Main statements:
    * `Scan.consumes_identifier`
    * `Scan.advances_quoted`
    * `Scan.advances_balanced`
-/

namespace TreeQuery

------------------------------------------------------------
-- Content and Rest
------------------------------------------------------------

/- Put a character before the content that was read. -/
def prepend
    (c : Char)
    (read? : Option (List Char × List Char)) :
    Option (List Char × List Char) :=
  read?.map fun (content, rest) => (c :: content, rest)

theorem prepend_eq_some_iff
    {c : Char}
    {read? : Option (List Char × List Char)}
    {content rest : List Char} :
    prepend c read? = some (content, rest) ↔
      ∃ tail, read? = some (tail, rest) ∧ content = c :: tail := by
  unfold prepend
  simp only [Option.map_eq_some_iff, Prod.exists, Prod.mk.injEq]
  constructor
  · rintro ⟨tail, _, hRead, rfl, rfl⟩
    exact ⟨tail, hRead, rfl⟩
  · rintro ⟨tail, hRead, rfl⟩
    exact ⟨tail, rest, hRead, rfl, rfl⟩

------------------------------------------------------------
-- Names
------------------------------------------------------------

/- A character may stand in a name without an escape. -/
def isIdentifierChar (c : Char) : Bool :=
  c.isAlphanum || c == '-' || c == '_' || 0x80 ≤ c.toNat

/-
  The name at the start of a text, with its escapes resolved,
  and the text after it.  There is none if the text ends
  within an escape.
-/
def readIdentifier? : List Char → Option (List Char × List Char)
| [] => some ([], [])
| '\\' :: cs =>
    match h : Text.readEscape? cs with
    | none => none
    | some (d, rest) =>
        have := (Text.readEscape?_suffix h).2
        prepend d (readIdentifier? rest)
| c :: cs =>
    if isIdentifierChar c then prepend c (readIdentifier? cs)
    else some ([], c :: cs)
termination_by cs => cs.length

/- A name leaves a suffix of the text, a proper one if it is not empty. -/
theorem readIdentifier?_suffix
    {cs name rest : List Char}
    (h : readIdentifier? cs = some (name, rest)) :
    rest <:+ cs ∧ (name ≠ [] → rest.length < cs.length) := by
  fun_induction readIdentifier? cs generalizing name rest with
  | case1 =>
      cases h
      simp
  | case2 cs hEscape => simp at h
  | case3 cs d after hEscape _ ih =>
      rcases prepend_eq_some_iff.1 h with ⟨tail, hRead, _⟩
      have hTail := ih hRead
      have hStep := Text.readEscape?_suffix hEscape
      have hLength := hTail.1.length_le
      refine ⟨hTail.1.trans (hStep.1.trans (List.suffix_cons _ _)), ?_⟩
      intro _
      simp only [List.length_cons]
      omega
  | case4 c cs _ hChar ih =>
      rcases prepend_eq_some_iff.1 h with ⟨tail, hRead, _⟩
      have hTail := ih hRead
      have hLength := hTail.1.length_le
      refine ⟨hTail.1.trans (List.suffix_cons _ _), ?_⟩
      intro _
      simp only [List.length_cons]
      omega
  | case5 c cs _ hChar =>
      cases h
      simp

------------------------------------------------------------
-- Quoted Texts
------------------------------------------------------------

/- A character that opens and closes quoted texts. -/
def isQuote (c : Char) : Bool :=
  c == '"' || c == '\''

/- What becomes of a quoted text. -/
inductive QuotedText where
| closed (content rest : List Char)
| endsInside
| endsInEscape
deriving DecidableEq, Repr

/- Put a character before the content of a quoted text. -/
def QuotedText.cons (c : Char) : QuotedText → QuotedText
| .closed content rest => .closed (c :: content) rest
| .endsInside => .endsInside
| .endsInEscape => .endsInEscape

/- The content of a quoted text with its escapes resolved. -/
def readQuoted (quote : Char) : List Char → QuotedText
| [] => .endsInside
| c :: cs =>
    if c = quote then .closed [] cs
    else if c = '\\' then
      match h : Text.readEscape? cs with
      | none => .endsInEscape
      | some (d, rest) =>
          have := (Text.readEscape?_suffix h).2
          (readQuoted quote rest).cons d
    else (readQuoted quote cs).cons c
termination_by cs => cs.length

/-
  The content of a quoted text as written.  The character
  after a backslash does not close it.
-/
def readQuotedRaw (quote : Char) : List Char → QuotedText
| [] => .endsInside
| [c] => if c = quote then .closed [] [] else .endsInside
| c :: d :: cs =>
    if c = quote then .closed [] (d :: cs)
    else if c = '\\' then ((readQuotedRaw quote cs).cons d).cons c
    else (readQuotedRaw quote (d :: cs)).cons c

theorem QuotedText.cons_eq_closed
    {c : Char}
    {q : QuotedText}
    {content rest : List Char}
    (h : q.cons c = .closed content rest) :
    ∃ tail, q = .closed tail rest ∧ content = c :: tail := by
  cases q with
  | closed tail rest' =>
      simp only [cons, closed.injEq] at h
      exact ⟨tail, by simp [h.2], h.1.symm⟩
  | endsInside => simp [cons] at h
  | endsInEscape => simp [cons] at h

theorem readQuoted_suffix
    {quote : Char}
    {cs content rest : List Char}
    (h : readQuoted quote cs = .closed content rest) :
    rest <:+ cs := by
  fun_induction readQuoted quote cs generalizing content with
  | case1 => simp at h
  | case2 cs =>
      simp only [QuotedText.closed.injEq] at h
      rcases h with ⟨_, rfl⟩
      exact List.suffix_cons _ _
  | case3 cs _ hEscape => simp at h
  | case4 cs d after hEscape _ _ ih =>
      rcases QuotedText.cons_eq_closed h with ⟨tail, hTail, _⟩
      have hStep := Text.readEscape?_suffix hEscape
      exact (ih hTail).trans (hStep.1.trans (List.suffix_cons _ _))
  | case5 c cs _ _ ih =>
      rcases QuotedText.cons_eq_closed h with ⟨tail, hTail, _⟩
      exact (ih hTail).trans (List.suffix_cons _ _)

theorem readQuotedRaw_suffix
    {quote : Char}
    {cs content rest : List Char}
    (h : readQuotedRaw quote cs = .closed content rest) :
    rest <:+ cs := by
  fun_induction readQuotedRaw quote cs generalizing content with
  | case1 => simp at h
  | case2 =>
      simp only [QuotedText.closed.injEq] at h
      rcases h with ⟨_, rfl⟩
      exact List.nil_suffix
  | case3 c _ => simp at h
  | case4 d cs =>
      simp only [QuotedText.closed.injEq] at h
      rcases h with ⟨_, rfl⟩
      exact List.suffix_cons _ _
  | case5 d cs _ ih =>
      rcases QuotedText.cons_eq_closed h with ⟨tail, hTail, _⟩
      rcases QuotedText.cons_eq_closed hTail with ⟨tail', hTail', _⟩
      exact (ih hTail').trans
        ((List.suffix_cons _ _).trans (List.suffix_cons _ _))
  | case6 c d cs _ _ ih =>
      rcases QuotedText.cons_eq_closed h with ⟨tail, hTail, _⟩
      exact (ih hTail).trans (List.suffix_cons _ _)

------------------------------------------------------------
-- Bracketed Texts
------------------------------------------------------------

/-
  The text up to the closing bracket, and the text after it,
  from behind the opening bracket.  `depth` counts the further
  brackets that are open, and `quote` is the quote inside of
  which the text stands.
-/
def readBalanced?
    (opening closing : Char) :
    (depth : Nat) → (quote : Option Char) →
      List Char → Option (List Char × List Char)
| _, _, [] => none
| _, _, ['\\'] => none
| depth, quote, '\\' :: c :: cs =>
    prepend '\\'
      (prepend c (readBalanced? opening closing depth quote cs))
| depth, some q, c :: cs =>
    prepend c
      (readBalanced? opening closing depth
        (if c = q then none else some q) cs)
| depth, none, c :: cs =>
    if isQuote c then
      prepend c (readBalanced? opening closing depth (some c) cs)
    else if c = opening then
      prepend c (readBalanced? opening closing (depth + 1) none cs)
    else if c = closing then
      match depth with
      | 0 => some ([], cs)
      | depth + 1 =>
          prepend c (readBalanced? opening closing depth none cs)
    else
      prepend c (readBalanced? opening closing depth none cs)

/- The text is its content, the closing bracket and the rest. -/
theorem readBalanced?_split
    {opening closing : Char}
    {depth : Nat}
    {quote : Option Char}
    {cs content rest : List Char}
    (h : readBalanced? opening closing depth quote cs =
      some (content, rest)) :
    cs = content ++ closing :: rest := by
  fun_induction readBalanced? opening closing depth quote cs
    generalizing content with
  | case1 => simp at h
  | case2 => simp at h
  | case3 depth quote c cs ih =>
      rcases prepend_eq_some_iff.1 h with ⟨tail, hTail, rfl⟩
      rcases prepend_eq_some_iff.1 hTail with ⟨tail', hTail', rfl⟩
      simp [ih hTail']
  | case4 depth q c cs _ _ ih =>
      rcases prepend_eq_some_iff.1 h with ⟨tail, hTail, rfl⟩
      simp [ih hTail]
  | case5 depth c cs _ _ hQuote ih =>
      rcases prepend_eq_some_iff.1 h with ⟨tail, hTail, rfl⟩
      simp [ih hTail]
  | case6 depth cs _ _ hQuote ih =>
      rcases prepend_eq_some_iff.1 h with ⟨tail, hTail, rfl⟩
      simp [ih hTail]
  | case7 cs _ _ hQuote hOpening =>
      cases h
      simp
  | case8 cs _ _ hQuote hOpening depth ih =>
      rcases prepend_eq_some_iff.1 h with ⟨tail, hTail, rfl⟩
      simp [ih hTail]
  | case9 depth c cs _ _ hQuote hOpening hClosing ih =>
      rcases prepend_eq_some_iff.1 h with ⟨tail, hTail, rfl⟩
      simp [ih hTail]

namespace Scan

------------------------------------------------------------
-- Readers
------------------------------------------------------------

/- Read a name that is not empty. -/
def identifier : Scan String := fun c =>
  match readIdentifier? c.rest with
  | some ([], _) => .error ⟨.expectedIdentifier c.peek?, c.offset⟩ c
  | some (name, rest) => .ok (String.ofList name) (c.moveTo rest)
  | none => .error ⟨.danglingEscape, c.toEnd.offset - 1⟩ c.toEnd

/-
  Read a quoted text, with its escapes resolved or as it is
  written.
-/
def quoted (resolve : Bool) : Scan String := fun c =>
  match c.rest with
  | [] => .error ⟨.expectedQuote, c.offset⟩ c
  | q :: cs =>
      if isQuote q then
        match if resolve then readQuoted q cs else readQuotedRaw q cs with
        | .closed content rest =>
            .ok (String.ofList content) (c.moveTo rest)
        | .endsInside => .error ⟨.unterminatedString q, c.offset⟩ c.toEnd
        | .endsInEscape =>
            .error ⟨.danglingEscape, c.toEnd.offset - 1⟩ c.toEnd
      else
        .error ⟨.expectedQuote, c.offset⟩ c.advance

/-
  Read a bracketed text.  The value is a cursor before what
  stands between the brackets; `code` classifies the fault of
  a bracket that is not closed.
-/
def balanced (opening closing : Char) (code : Code) : Scan Cursor := fun c =>
  match c.rest with
  | [] => .error ⟨.expectedBracket opening, c.offset⟩ c
  | b :: cs =>
      if b = opening then
        match readBalanced? opening closing 0 none cs with
        | some (content, rest) =>
            .ok ⟨c.offset + opening.utf8Size, content⟩ (c.moveTo rest)
        | none => .error ⟨.unclosed code opening closing, c.offset⟩ c.toEnd
      else
        .error ⟨.expectedBracket opening, c.offset⟩ c

------------------------------------------------------------
-- Progress
------------------------------------------------------------

theorem advances_identifier : Advances identifier := by
  intro c
  unfold identifier
  split
  · exact Cursor.Reaches.refl c
  · next name rest _ hRead =>
      exact Cursor.reaches_moveTo (readIdentifier?_suffix hRead).1
  · exact c.reaches_toEnd

/- A name is never empty. -/
theorem consumes_identifier : Consumes identifier := by
  intro c d name h
  unfold identifier at h
  split at h
  · simp at h
  · next cs rest hNe hRead =>
      simp only [EStateM.Result.ok.injEq] at h
      rcases h with ⟨_, rfl⟩
      apply (readIdentifier?_suffix hRead).2
      rintro rfl
      exact hNe rfl
  · simp at h

theorem advances_quoted (resolve : Bool) : Advances (quoted resolve) := by
  intro c
  unfold quoted
  split
  · exact Cursor.Reaches.refl c
  · next q cs hCons =>
      split
      · split
        · next content rest hRead =>
            apply Cursor.reaches_moveTo
            have hSuffix : rest <:+ cs := by
              split at hRead
              · exact readQuoted_suffix hRead
              · exact readQuotedRaw_suffix hRead
            rw [hCons]
            exact hSuffix.trans (List.suffix_cons _ _)
        · exact c.reaches_toEnd
        · exact c.reaches_toEnd
      · exact c.reaches_advance

theorem advances_balanced
    (opening closing : Char)
    (code : Code) :
    Advances (balanced opening closing code) := by
  intro c
  unfold balanced
  split
  · exact Cursor.Reaches.refl c
  · next b cs hCons =>
      split
      · split
        · next content rest hRead =>
            apply Cursor.reaches_moveTo
            rw [hCons, readBalanced?_split hRead]
            exact ⟨b :: content ++ [closing], by simp⟩
        · exact c.reaches_toEnd
      · exact Cursor.Reaches.refl c

/- A bracketed text has its brackets at least. -/
theorem consumes_balanced
    (opening closing : Char)
    (code : Code) :
    Consumes (balanced opening closing code) := by
  intro c d window h
  unfold balanced at h
  split at h
  · simp at h
  · next b cs hCons =>
      split at h
      · split at h
        · next content rest hRead =>
            simp only [EStateM.Result.ok.injEq] at h
            rcases h with ⟨_, rfl⟩
            simp only [Cursor.moveTo, hCons, readBalanced?_split hRead,
              List.length_cons, List.length_append]
            omega
        · simp at h
      · simp at h

end Scan

end TreeQuery
