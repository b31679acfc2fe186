import TreeQuery.Proofs.Reading.Shift
import TreeQuery.Proofs.Reading.Stride
import TreeQuery.Proofs.Reading.Trail

/-
  Brackets in what is read.

  Attribute tests and arguments are read as a whole, from the
  bracket that opens them to the one that closes them.  There
  are no brackets in the rest of what is read, except behind a
  backslash.  So no reader comes past a closing bracket that
  was not opened.

  Main statements:
    * `Text.Strides.not_closing`
    * `Scan.strides_meaning`
    * `Scan.strides_part?`
    * `Scan.strides_of_readPart`
    * `Scan.readPart_ne_of_closing`
-/

namespace TreeQuery

variable {E : Engine}

------------------------------------------------------------
-- Closing Brackets
------------------------------------------------------------

/- An opening bracket is no plain character. -/
theorem special_of_areBrackets
    {opening closing : Char}
    (h : areBrackets opening closing = true) :
    opening ∈ specialChars := by
  rcases cases_of_areBrackets h with ⟨rfl, rfl⟩ | ⟨rfl, rfl⟩
  · decide
  · decide

/- Each kind of bracket is closed by one of its own. -/
theorem closing_of_areBrackets
    {opening closing closing' : Char}
    (h : areBrackets opening closing = true)
    (h' : areBrackets opening closing' = true) :
    closing = closing' := by
  rcases cases_of_areBrackets h with ⟨rfl, rfl⟩ | ⟨rfl, rfl⟩
  · rcases cases_of_areBrackets h' with ⟨_, rfl⟩ | ⟨hOther, _⟩
    · rfl
    · exact absurd hOther (by decide)
  · rcases cases_of_areBrackets h' with ⟨hOther, _⟩ | ⟨_, rfl⟩
    · exact absurd hOther (by decide)
    · rfl

namespace Text.Strides

/- The rest of the text is reached behind its first character. -/
theorem of_plain_cons
    {x : Char}
    {xs : List Char}
    (hPlain : x ∉ specialChars)
    (h : Strides areBrackets (x :: xs) []) :
    Strides areBrackets xs [] := by
  cases h with
  | plain _ hRest => exact hRest
  | escape => exact absurd (by decide) hPlain
  | enclosed hBrackets =>
      exact absurd (special_of_areBrackets hBrackets) hPlain

/- Behind blanks a closing parenthesis is not left behind. -/
theorem not_blanks_closing
    {blanks : List Char}
    (hBlanks : AreBlanks blanks)
    (more : List Char) :
    ¬ Strides areBrackets (blanks ++ ')' :: more) [] := by
  induction blanks with
  | nil =>
      intro h
      cases h with
      | plain hPlain => exact absurd (by decide) hPlain
      | enclosed hBrackets => exact absurd hBrackets (by simp [areBrackets])
  | cons x xs ih =>
      intro h
      have hBlank := hBlanks x (by simp)
      have hPlain := not_special_of_isEscapeTail (x := x)
        (by simp [isEscapeTail, hBlank])
      exact ih (fun y hMem => hBlanks y (by simp [hMem]))
        (of_plain_cons hPlain h)

/-
  Where a text that is left behind as a whole goes on with a
  closing parenthesis, that is not left behind.  An escape at
  the end of the text may take a blank before it.
-/
theorem not_closing
    {blanks more cs cs' : List Char}
    (hBlanks : AreBlanks blanks)
    (h : Strides areBrackets cs [])
    (hGoes : GoesOn (blanks ++ ')' :: more) cs cs') :
    ¬ Strides areBrackets cs' [] := by
  generalize hEnd : ([] : List Char) = rest at h
  induction h generalizing cs' with
  | here rest =>
      cases hEnd
      cases hGoes with
      | inside hSome => exact absurd rfl hSome
      | atEnd hAfter =>
          rcases hAfter.exists_of_unblank (by decide) with
            ⟨left, hLeft, rfl⟩
          exact not_blanks_closing (hBlanks.of_suffix hLeft) more
  | @plain x xs rest hPlain _ ih =>
      cases goesOn_cons hGoes
      intro hWhole
      subst hEnd
      exact ih (goesOn_append _ xs) rfl (of_plain_cons hPlain hWhole)
  | @escape d cs behind rest hEscape _ ih =>
      cases goesOn_cons hGoes
      intro hWhole
      subst hEnd
      have hDigit :
          (blanks ++ ')' :: more).head?.any isHexDigit = false := by
        cases blanks with
        | nil => rfl
        | cons x xs =>
            exact not_isHexDigit_of_isBlank (hBlanks x (by simp))
      rcases readEscape?_goesOn hDigit hEscape with
        ⟨behind', hBehind, hEscape'⟩
      cases hWhole with
      | plain hPlain => exact absurd (by decide) hPlain
      | escape hEscape'' hRest =>
          rw [hEscape', Option.some.injEq, Prod.mk.injEq] at hEscape''
          exact ih hBehind rfl (hEscape''.2 ▸ hRest)
      | enclosed hBrackets =>
          exact absurd hBrackets (by simp [areBrackets])
  | @enclosed opening closing cs content behind rest hBrackets hRead _ ih =>
      cases goesOn_cons hGoes
      intro hWhole
      subst hEnd
      cases hWhole with
      | plain hPlain =>
          exact absurd (special_of_areBrackets hBrackets) hPlain
      | escape => exact absurd hBrackets (by simp [areBrackets])
      | enclosed hBrackets' hRead' hRest =>
          cases closing_of_areBrackets hBrackets hBrackets'
          rw [readBalanced?_append hRead, Option.some.injEq,
            Prod.mk.injEq] at hRead'
          exact ih (goesOn_append _ behind) rfl (hRead'.2 ▸ hRest)

end Text.Strides

namespace Scan

variable {α : Type}
variable {brackets : Char → Char → Bool}
variable {c d : Cursor}

------------------------------------------------------------
-- Arguments
------------------------------------------------------------

theorem strides_failAt (o : Nat) (cause : Cause) :
    Strides brackets (failAt o cause : Scan α) := by
  intro c d a h
  simp [failAt] at h

/- What is read with a cursor of its own is not read twice. -/
theorem strides_within (part : Cursor) (act : Scan α) :
    Strides brackets (within part act) := by
  intro c d a h
  unfold within at h
  split at h
  · cases h
    exact .here c.rest
  · simp at h

theorem strides_ofExcept (result : Except Fault α) :
    Strides brackets (ofExcept result) := by
  intro c d a h
  cases result with
  | error fault => simp [ofExcept] at h
  | ok b =>
      cases h
      exact .here c.rest

theorem strides_pattern
    (o : Nat)
    (ignoreCase : Bool)
    (source : String) :
    Strides brackets (pattern E o ignoreCase source) := by
  unfold pattern
  split
  · exact strides_pure _
  · exact strides_failAt _ _

section Arguments

variable (hRound : brackets '(' ')' = true)

include hRound

/- An argument stands between the parentheses that close it. -/
theorem strides_argument (name : String) :
    Strides brackets (argument name) := by
  intro c d part h
  rcases argument_eq_ok_iff.1 h with ⟨text, hText, _, hRest, _, _⟩
  have hRead :=
    readBalanced?_of_isBalanced (hText.isBalanced (by decide)) d.rest
  rw [hRest]
  exact .enclosed hRound hRead (.here d.rest)

theorem strides_textArgument (name : String) (resolve : Bool) :
    Strides brackets (textArgument name resolve) := by
  refine (strides_argument hRound name).bind fun part => .ite ?_ (.ite ?_ ?_)
  · exact (strides_within _ _).bind fun text =>
      .ite (strides_failAt _ _) (strides_pure _)
  · exact strides_pure _
  · exact strides_pure _

theorem strides_indexArgument (name : String) :
    Strides brackets (indexArgument name) := by
  refine (strides_argument hRound name).bind fun part => ?_
  split
  · exact strides_pure _
  · exact strides_failAt _ _

theorem strides_formulaArgument (name : String) :
    Strides brackets (formulaArgument name) := by
  refine (strides_argument hRound name).bind fun part => ?_
  split
  · exact strides_pure _
  · exact strides_failAt _ _

variable {nested : Cursor → Except Fault (Selector E)}

theorem strides_meaning
    (before : List (Selector E))
    (name : String)
    (known : PseudoClass E) :
    Strides brackets (meaning nested before name known) := by
  cases known with
  | plain s => exact strides_pure s
  | index test =>
      exact (strides_indexArgument hRound name).bind fun _ => strides_pure _
  | position kind =>
      exact (strides_formulaArgument hRound name).bind fun _ =>
        strides_pure _
  | nested nesting =>
      exact (strides_argument hRound name).bind fun part =>
        (strides_ofExcept _).bind fun s => strides_pure _
  | contains source =>
      exact (strides_textArgument hRound name true).bind fun text =>
        strides_pure _
  | matchesText source =>
      exact (strides_textArgument hRound name false).bind fun text =>
        (strides_pattern _ _ _).bind fun _ => strides_pure _

end Arguments

------------------------------------------------------------
-- Parts
------------------------------------------------------------

theorem strides_tagName : Strides brackets tagName :=
  strides_identifier.map _

/- What may follow a star or a name for a namespace. -/
theorem strides_namespace
    (plain any : Selector E)
    (make : String → Selector E) :
    Strides brackets (do
      if ← chomp "|" then
        if ← chomp "*" then return any
        else return make (← tagName)
      else
        return plain) := by
  refine (strides_chomp (by decide)).bind fun _ => .ite ?_ (strides_pure _)
  exact (strides_chomp (by decide)).bind fun _ =>
    .ite (strides_pure _) (strides_tagName.bind fun _ => strides_pure _)

/- Behind a sign that is no bracket the rest is read. -/
theorem strides_sign
    {act : Scan α}
    (hAct : Strides brackets act)
    {o : Nat}
    {x : Char}
    {xs : List Char}
    (hPlain : x ∉ specialChars)
    {a : α}
    (h : value? (advance >>= fun _ => act) ⟨o, x :: xs⟩ = some (a, d)) :
    Text.Strides brackets (x :: xs) d.rest := by
  rcases value?_bind_eq_some_iff.1 h with ⟨_, e, hFirst, hRest⟩
  cases hFirst
  exact .plain hPlain (hAct _ _ _ (value?_eq_some_iff.1 hRest))

/- The signs of parts, apart from a square bracket, mean nothing else. -/
theorem not_special_of_partStart?
    {isFirst : Bool}
    {x : Char}
    {start : PartStart}
    (h : partStart? isFirst x = some start)
    (hOther : start ∉ [.bracket, .name]) :
    x ∉ specialChars := by
  have hAll :
      ∀ isFirst, specialChars.all fun x =>
        (partStart? isFirst x).all (· ∈ [PartStart.bracket, .name]) := by
    decide
  intro hMem
  have hStart := List.all_eq_true.1 (hAll isFirst) x hMem
  rw [h] at hStart
  exact hOther (by simpa using hStart)

variable {nested : Cursor → Except Fault (Selector E)}

theorem strides_pseudoClass
    (hRound : brackets '(' ')' = true)
    {before : List (Selector E)}
    {o : Nat}
    {x : Char}
    {xs : List Char}
    (hPlain : x ∉ specialChars)
    {s : Selector E}
    (h : value? (pseudoClass nested before) ⟨o, x :: xs⟩ = some (s, d)) :
    Text.Strides brackets (x :: xs) d.rest := by
  rcases value?_bind_eq_some_iff.1 h with ⟨start, e, hStart, hRest⟩
  cases hStart
  refine strides_sign (Strides.bind ?_ fun name => ?_) hPlain hRest
  · intro c d name hRead
    rcases bind_eq_ok_iff.1 hRead with ⟨next, e, hPeek, hRead⟩
    cases hPeek
    exact Strides.ite (strides_failAt _ _)
      (strides_identifier.map _) _ _ _ hRead
  · split
    · exact strides_meaning hRound _ _ _
    · exact strides_failAt _ _

/- A part that is no attribute test has the brackets of its argument. -/
theorem strides_part?
    (hRound : brackets '(' ')' = true)
    {before : List (Selector E)}
    {s : Selector E}
    (h : value? (part? nested before) c = some (some s, d)) :
    value? (attributeTest E) c = some (s, d) ∨
      Text.Strides brackets c.rest d.rest := by
  rcases c with ⟨o, rest⟩
  rw [value?_part?] at h
  cases rest with
  | nil => simp at h
  | cons x xs =>
      simp only [List.head?_cons, Option.bind_some] at h
      cases hStart : partStart? before.isEmpty x with
      | none => simp [hStart] at h
      | some start =>
          simp only [hStart, Option.map_eq_some_iff, Prod.exists,
            Prod.mk.injEq, Option.some.injEq] at h
          rcases h with ⟨t, e, hRead, rfl, rfl⟩
          have hPlain :
              start ∉ [.bracket, .name] →
                x ∉ specialChars :=
            not_special_of_partStart? hStart
          have hMarked :
              ∀ make : String → Selector E,
                Strides brackets (return make (← identifier)) :=
            fun make => strides_identifier.bind fun _ => strides_pure _
          cases start with
          | star =>
              exact .inr (strides_sign
                (strides_namespace .universal .universal _)
                (hPlain (by simp)) hRead)
          | hash =>
              exact .inr (strides_sign (hMarked .id) (hPlain (by simp)) hRead)
          | dot =>
              exact .inr (strides_sign (hMarked .className)
                (hPlain (by simp)) hRead)
          | bracket => exact .inl hRead
          | colon =>
              exact .inr (strides_pseudoClass hRound (hPlain (by simp)) hRead)
          | name =>
              have hName : Strides brackets (namePart E) :=
                strides_tagName.bind fun name =>
                  strides_namespace (.tag (.name name))
                    (.tag (.namespaceOnly name)) _
              exact .inr (hName _ _ _ (value?_eq_some_iff.1 hRead))

------------------------------------------------------------
-- Links
------------------------------------------------------------

/- There are no brackets between compounds. -/
theorem strides_link
    {step : Link}
    (h : value? link c = some (step, d)) :
    Text.Strides brackets c.rest d.rest := by
  have hSkip : ∀ c : Cursor, Text.Strides brackets c.rest c.skipBlanks.rest :=
    fun c => strides_skipBlanks c c.skipBlanks c.atBlank rfl
  cases step with
  | finished =>
      rcases value?_link_finished_iff.1 h with ⟨rfl, _⟩
      exact hSkip c
  | related combinator =>
      rcases value?_link_related_iff.1 h with
        ⟨x, xs, hCons, _, ⟨hSign, _, rfl⟩ | ⟨_, _, _, rfl⟩⟩
      · have hPlain :
            ∀ x ∈ ['>', '+', '~'], x ∉ specialChars :=
          List.all_iff_forall_prop.1 (by decide)
        have hMem := Selector.mem_of_combinator? hSign
        have hFirst := hSkip c
        rw [hCons] at hFirst
        exact hFirst.trans (.plain (hPlain x hMem) (hSkip ⟨_, xs⟩))
      · exact hSkip c

------------------------------------------------------------
-- Compounds, Chains and Groups
------------------------------------------------------------

theorem strides_attributeTest : Strides areBrackets (attributeTest E) := by
  have hClosing : ']' ∉ ['\\', '"', '\'', '['] := by decide
  refine Strides.bind ?_ fun part => strides_within part (bracketed E)
  intro c d part h
  rcases (balanced_eq_ok_iff hClosing).1 h with ⟨hText, hRest, _, _⟩
  have hRead :=
    readBalanced?_of_isBalanced (hText.isBalanced hClosing) d.rest
  rw [hRest]
  exact .enclosed rfl hRead (.here d.rest)

theorem strides_partsFrom
    {before parts : List (Selector E)}
    (h : partsFrom nested before c = .ok parts d) :
    Text.Strides areBrackets c.rest d.rest := by
  fun_induction partsFrom nested before c with
  | case1 before c s e hPart _ ih =>
      have hRound : areBrackets '(' ')' = true := rfl
      have hFirst : Text.Strides areBrackets c.rest e.rest := by
        rcases strides_part? hRound (value?_eq_some_iff.2 hPart) with
          hTest | hOther
        · exact strides_attributeTest _ _ _ (value?_eq_some_iff.1 hTest)
        · exact hOther
      exact hFirst.trans (ih h)
  | case2 before c e hPart =>
      rcases partStart?_of_part? hPart with ⟨rfl, _⟩
      cases h
      exact .here _
  | case3 before c fault e hPart => simp at h

theorem strides_compound
    {s : Selector E}
    (h : value? (compound nested) c = some (s, d)) :
    Text.Strides areBrackets c.rest d.rest := by
  rw [value?_compound, Option.bind_eq_some_iff] at h
  rcases h with ⟨⟨parts, e⟩, hParts, hMake⟩
  dsimp only at hMake
  split at hMake
  · simp at hMake
  · cases hMake
    exact strides_partsFrom (value?_eq_some_iff.1 hParts)

theorem strides_chainFrom
    {left s : Selector E}
    (h : chainFrom nested left c = .ok s d) :
    Text.Strides areBrackets c.rest d.rest := by
  fun_induction chainFrom nested left c with
  | case1 left c combinator right e hNext _ ih =>
      rcases link_of_next?_some (value?_eq_some_iff.2 hNext) with
        ⟨f, hLink, hRight⟩
      exact ((strides_link hLink).trans (strides_compound hRight)).trans
        (ih h)
  | case2 left c e hNext =>
      cases h
      exact strides_link (link_of_next? (value?_eq_some_iff.2 hNext))
  | case3 left c fault e hNext => simp at h

theorem strides_chain
    {s : Selector E}
    (h : value? (chain nested) c = some (s, d)) :
    Text.Strides areBrackets c.rest d.rest := by
  rw [value?_chain] at h
  split at h
  · exact strides_chainFrom (value?_eq_some_iff.1 h)
  · rcases Option.bind_eq_some_iff.1 h with ⟨⟨first, e⟩, hFirst, hRest⟩
    exact (strides_compound hFirst).trans
      (strides_chainFrom (value?_eq_some_iff.1 hRest))

theorem strides_branch
    {s : Selector E}
    {goesOn : Bool}
    (h : value? (branch nested) c = some ((s, goesOn), d)) :
    Text.Strides areBrackets c.rest d.rest := by
  rcases chain_of_branch h with ⟨e, _, hChain, hComma⟩
  have hSkip : Text.Strides areBrackets c.rest c.skipBlanks.rest :=
    strides_skipBlanks c c.skipBlanks c.atBlank rfl
  have hSign : Strides areBrackets (chomp ",") := strides_chomp (by decide)
  exact (hSkip.trans (strides_chain hChain)).trans
    (hSign _ _ _ (value?_eq_some_iff.1 hComma))

theorem strides_branchesFrom
    {before branches : List (Selector E)}
    (h : branchesFrom nested before c = .ok branches d) :
    Text.Strides areBrackets c.rest d.rest := by
  fun_induction branchesFrom nested before c with
  | case1 before c s e hBranch _ ih =>
      exact (strides_branch (value?_eq_some_iff.2 hBranch)).trans (ih h)
  | case2 before c s e hBranch =>
      cases h
      exact strides_branch (value?_eq_some_iff.2 hBranch)
  | case3 before c fault e hBranch => simp at h

/- All that is read as a selector leaves no bracket behind. -/
theorem strides_of_readPart
    {s : Selector E}
    (h : readPart E c = .ok s) :
    Text.Strides areBrackets c.rest [] := by
  rcases readPart_eq_ok_iff.1 h with ⟨d, hGroup⟩
  have hEnd := rest_of_group hGroup
  rw [value?_group, Option.map_eq_some_iff] at hGroup
  rcases hGroup with ⟨⟨branches, e⟩, hRead, hPair⟩
  cases hPair
  have hWhole := strides_branchesFrom (value?_eq_some_iff.1 hRead)
  rwa [hEnd] at hWhole

/-
  No selector is read of a text that goes on from another one
  with a closing parenthesis.
-/
theorem readPart_ne_of_closing
    {c' : Cursor}
    {s : Selector E}
    (h : readPart E c = .ok s)
    {blanks more : List Char}
    (hBlanks : Text.AreBlanks blanks)
    (hRest : c'.rest = c.rest ++ (blanks ++ ')' :: more))
    (t : Selector E) :
    readPart E c' ≠ .ok t := by
  intro hWhole
  have hGoes := goesOn_append (blanks ++ ')' :: more) c.rest
  rw [← hRest] at hGoes
  exact (strides_of_readPart h).not_closing hBlanks hGoes
    (strides_of_readPart hWhole)

end Scan

end TreeQuery
