import TreeQuery.Proofs.Reading.Trail

/-
  Readers and blanks behind a text.

  Every reader follows: with blanks behind the text it gives
  what it gives without them, or the blanks are taken into a
  name, and then it gives something else.

  Key definitions include:
    * `Cursor.Trails`
    * `Scan.Follows`

  Main statements:
    * `Scan.Follows.bind`
    * `Scan.follows_identifier`
    * `Scan.follows_argument`
-/

namespace TreeQuery

variable {E : Engine}

------------------------------------------------------------
-- Cursors
------------------------------------------------------------

namespace Cursor

variable {more : List Char} {taken inName : Bool}

/-
  The cursors stand alike in a text and in the same text with
  blanks behind it.
-/
structure Trails
    (more : List Char)
    (taken inName : Bool)
    (c c' : Cursor) : Prop where
  extended : Extended (GoesOn more) c c'
  text : Trailed more taken inName c.rest c'.rest

theorem Trails.of_ne_nil
    {c c' : Cursor}
    (h : Trails more taken inName c c')
    (hSome : c.rest ≠ [])
    (inName' : Bool) :
    Trails more taken inName' c c' :=
  ⟨h.extended, h.text.of_ne_nil hSome inName'⟩

theorem Trails.moveTo
    {c c' : Cursor}
    {rest rest' : List Char}
    {inName' : Bool}
    (h : Trails more taken inName c c')
    (hSuffix : rest <:+ c.rest)
    (hRest : Trailed more taken inName' rest rest') :
    Trails more taken inName' (c.moveTo rest) (c'.moveTo rest') :=
  ⟨h.extended.moveTo goesOn_cons hSuffix hRest.goesOn, hRest⟩

/- A character is read of both texts. -/
theorem Trails.tail
    {o : Nat}
    {x : Char}
    {xs : List Char}
    {c' : Cursor}
    (h : Trails more taken inName ⟨o, x :: xs⟩ c')
    (hSlash : x ≠ '\\')
    (o' : Nat) :
    Trails more taken (leadsName x) ⟨o', xs⟩ ⟨o', xs ++ more⟩ := by
  rcases h.text.cons with ⟨_, hTrim, hTaken⟩
  rw [takesBlank_cons hSlash] at hTaken
  have hTrim' := Text.trimEnd_of_suffix hTrim (List.suffix_cons x xs)
  exact ⟨extended_append more o' xs, trailed_append hTrim' hTaken⟩

/- The text has been read, and blanks alone are left behind it. -/
def AtBlanks (c c' : Cursor) : Prop :=
  c.rest = [] ∧ Text.AreBlanks c'.rest

end Cursor

namespace Scan

open Cursor (Trails AtBlanks)

variable {α β : Type}

------------------------------------------------------------
-- Following Readers
------------------------------------------------------------

/-
  What is read with blanks behind the text, beside what is read
  without.  `after` tells where a name may be read on.
-/
abbrev Follow
    (more : List Char)
    (taken : Bool)
    (after : α → Bool)
    (Apart : α → α → Prop) :
    Option (α × Cursor) → Option (α × Cursor) → Prop :=
  Outcome taken (fun a => Trails more taken (after a))
    fun a a' d d' => Apart a a' ∧ AtBlanks d d'

/- The reader gives such values wherever it starts. -/
def Follows
    (more : List Char)
    (taken inName : Bool)
    (after : α → Bool)
    (Apart : α → α → Prop)
    (act : Scan α) : Prop :=
  ∀ c c', Trails more taken inName c c' →
    Follow more taken after Apart (value? act c) (value? act c')

/- No two values are apart. -/
def Never (_ _ : α) : Prop :=
  False

/-
  At the end of the text and before the blanks behind it two
  readers give values that are apart, if they give two.
-/
def EndsApart (Apart : α → α → Prop) (act act' : Scan α) : Prop :=
  ∀ d d', AtBlanks d d' →
    ∀ a e a' e', value? act d = some (a, e) →
      value? act' d' = some (a', e') → Apart a a' ∧ AtBlanks e e'

theorem endsApart_pure
    {Apart : α → α → Prop}
    {a a' : α}
    (h : Apart a a') :
    EndsApart Apart (pure a) (pure a') := by
  intro d d' hEnd b e b' e' hRead hRead'
  cases hRead
  cases hRead'
  exact ⟨h, hEnd⟩

variable {more : List Char} {taken inName : Bool}

theorem Follows.pure
    {after : α → Bool}
    {Apart : α → α → Prop}
    {a : α}
    (h : after a = inName) :
    Follows more taken inName after Apart (pure a) := by
  intro c c' hTrails
  rw [← h] at hTrails
  exact .agrees hTrails

/- A reader that gives nothing follows. -/
theorem Follows.of_none
    {after : α → Bool}
    {Apart : α → α → Prop}
    {act : Scan α}
    (h : ∀ c, value? act c = none) :
    Follows more taken inName after Apart act := by
  intro c c' _
  rw [h, h]
  exact .fails

theorem Follows.bind
    {between : α → Bool}
    {after : β → Bool}
    {Apart : α → α → Prop}
    {Apart' : β → β → Prop}
    {act : Scan α}
    {next : α → Scan β}
    (hAct : Follows more taken inName between Apart act)
    (hNext : ∀ a, Follows more taken (between a) after Apart' (next a))
    (hEnds : ∀ a a', Apart a a' → EndsApart Apart' (next a) (next a')) :
    Follows more taken inName after Apart' (act >>= next) := by
  intro c c' hTrails
  rw [value?_bind, value?_bind]
  refine (hAct c c' hTrails).bind ?_ ?_
  · intro a d d' _ hTrails'
    exact hNext a d d' hTrails'
  · rintro a d a' d' ⟨hApart, hEnd⟩ b e b' e' hRead hRead'
    exact hEnds a a' hApart d d' hEnd b e b' e' hRead hRead'

/- Two values of a reader that never differ go on alike. -/
theorem Follows.bind_never
    {between : α → Bool}
    {after : β → Bool}
    {Apart : β → β → Prop}
    {act : Scan α}
    {next : α → Scan β}
    (hAct : Follows more taken inName between Never act)
    (hNext : ∀ a, Follows more taken (between a) after Apart (next a)) :
    Follows more taken inName after Apart (act >>= next) :=
  hAct.bind hNext fun _ _ hNever => hNever.elim

theorem Follows.of_never
    {after : α → Bool}
    {Apart : α → α → Prop}
    {act : Scan α}
    (hAct : Follows more taken inName after Never act) :
    Follows more taken inName after Apart act := by
  intro c c' hTrails
  have hOutcome := hAct c c' hTrails
  generalize value? act c = read?, value? act c' = read?' at hOutcome ⊢
  cases hOutcome with
  | fails => exact .fails
  | agrees hTrails' => exact .agrees hTrails'
  | differs hTaken hNever =>
      refine .differs hTaken fun a d a' d' hRead hRead' => ?_
      exact (hNever a d a' d' hRead hRead').1.elim

theorem Follows.map
    {between : Bool}
    {Apart : α → α → Prop}
    {Apart' : β → β → Prop}
    {act : Scan α}
    {f : α → β}
    (hAct : Follows more taken inName (fun _ => between) Apart act)
    (hApart : ∀ a a', Apart a a' → Apart' (f a) (f a')) :
    Follows more taken inName (fun _ => between) Apart' (f <$> act) := by
  intro c c' hTrails
  rw [value?_map, value?_map, Option.map_eq_bind, Option.map_eq_bind]
  refine (hAct c c' hTrails).bind ?_ ?_
  · intro a d d' _ hTrails'
    exact .agrees hTrails'
  · rintro a d a' d' ⟨hDiffer, hEnd⟩ b e b' e' hRead hRead'
    cases hRead
    cases hRead'
    exact ⟨hApart a a' hDiffer, hEnd⟩

theorem Follows.ite
    {after : α → Bool}
    {Apart : α → α → Prop}
    {p : Prop}
    [Decidable p]
    {act other : Scan α}
    (hAct : Follows more taken inName after Apart act)
    (hOther : Follows more taken inName after Apart other) :
    Follows more taken inName after Apart (if p then act else other) := by
  split
  · exact hAct
  · exact hOther

/- What is read of a part of its own does not move the cursor. -/
theorem follows_within
    (part : Cursor)
    (act : Scan α) :
    Follows more taken inName (fun _ => inName) Never (within part act) := by
  intro c c' hTrails
  rw [value?_within, value?_within]
  cases value? act part with
  | none => exact .fails
  | some read => exact .agrees hTrails

theorem follows_ofExcept (result : Except Fault α) :
    Follows more taken inName (fun _ => inName) Never
      (ofExcept result) := by
  cases result with
  | ok a => exact .pure rfl
  | error fault => exact .of_none fun _ => rfl

theorem follows_pattern
    (o : Nat)
    (ignoreCase : Bool)
    (source : String) :
    Follows more taken inName (fun _ => inName) Never
      (pattern E o ignoreCase source) := by
  unfold pattern
  cases Pattern.read? E ignoreCase source with
  | some p => exact .pure rfl
  | none => exact .of_none fun _ => rfl

------------------------------------------------------------
-- Tokens
------------------------------------------------------------

section Blanks

variable (hMore : Text.AreBlanks more)

include hMore

/-
  The next character of both texts, or the end of the one and
  what is left of the blanks of the other.
-/
theorem cases_of_trails
    {c c' : Cursor}
    (h : Trails more taken inName c c') :
    (∃ o x xs, c = ⟨o, x :: xs⟩ ∧ c' = ⟨o, x :: (xs ++ more)⟩) ∨
      AtBlanks c c' := by
  rcases c with ⟨o, rest⟩
  cases rest with
  | nil =>
      refine .inr ⟨rfl, ?_⟩
      rcases c' with ⟨o', after⟩
      cases h.extended.text with
      | inside hSome => exact absurd rfl hSome
      | atEnd hAfter => exact areBlanks_of_dropsBlanks hMore hAfter
  | cons x xs => exact .inl ⟨o, x, xs, rfl, h.extended.cons goesOn_cons⟩

/- Before the end of the text the next character is the same. -/
theorem head?_of_trails
    {c c' : Cursor}
    (h : Trails more taken inName c c')
    (hSome : c.rest ≠ []) :
    c'.rest.head? = c.rest.head? := by
  rcases cases_of_trails hMore h with ⟨o, x, xs, rfl, rfl⟩ | hEnd
  · rfl
  · exact absurd hEnd.1 hSome

/- A name that is read of both texts is longer with blanks in it. -/
theorem follows_identifier :
    Follows more taken true (fun _ => false)
      (fun name name' => name.length < name'.length) identifier := by
  intro c c' hTrails
  have hNames := hTrails.text.readIdentifier? hMore
  have hValue :
      ∀ c, value? identifier c =
        (readIdentifier? c.rest).bind fun found =>
          if found.1 = [] then none
          else some (String.ofList found.1, c.moveTo found.2) := by
    intro c
    unfold value? identifier
    rcases readIdentifier? c.rest with _ | ⟨_ | ⟨x, xs⟩, rest⟩
    · rfl
    · rfl
    · rfl
  rw [hValue, hValue]
  refine (hTrails.text.readIdentifier? hMore).bind ?_ ?_
  · intro name rest rest' hRead hRest
    have hSuffix := (readIdentifier?_suffix hRead).1
    cases name with
    | nil => exact .fails
    | cons x xs => exact .agrees (hTrails.moveTo hSuffix hRest)
  · rintro name rest name' rest' ⟨hLess, hEnd, hBlanks⟩ s d s' d' hMake hMake'
    cases name with
    | nil => simp at hMake
    | cons x xs =>
        cases name' with
        | nil => simp at hMake'
        | cons y ys =>
            cases hMake
            cases hMake'
            exact ⟨by simpa using hLess, hEnd, hBlanks⟩

omit hMore in
/- A sign that does not come next is not read. -/
theorem value?_chomp_none
    {text : String}
    {sign : Char}
    (hText : text.toList = [sign])
    (hSign : sign ∈ ['|', '*', '^', ','])
    {c : Cursor}
    (hNone : c.rest.head? ≠ some sign) :
    value? (chomp text) c = some (false, c) := by
  rcases c with ⟨o, rest⟩
  rw [value?_chomp_sign hText hSign]
  cases rest with
  | nil => rfl
  | cons x xs =>
      have hOther : x ≠ sign := by simpa using hNone
      simp only [if_neg hOther]

omit hMore in
/- Neither the end of the text nor a blank is a sign. -/
theorem head?_of_atBlanks
    {c c' : Cursor}
    (h : AtBlanks c c')
    (sign : Char)
    (hSign : sign ∈ ['|', '*', ',', '(', ':']) :
    c.rest.head? ≠ some sign ∧ c'.rest.head? ≠ some sign := by
  refine ⟨by simp [h.1], fun hHead => ?_⟩
  refine ne_of_isBlank (h.2.head hHead) ?_ rfl
  simp only [List.mem_cons, List.not_mem_nil, or_false] at hSign ⊢
  rcases hSign with rfl | rfl | rfl | rfl | rfl
  all_goals simp

/- A sign is in both texts or in none. -/
theorem follows_chomp
    {text : String}
    {sign : Char}
    (hText : text.toList = [sign])
    (hSign : sign ∈ ['|', '*', ',']) :
    Follows more taken inName
      (fun there => if there then leadsName sign else inName) Never
      (chomp text) := by
  have hKnown : sign ∈ ['|', '*', '^', ','] := by
    simp only [List.mem_cons, List.not_mem_nil, or_false] at hSign ⊢
    rcases hSign with rfl | rfl | rfl
    all_goals simp
  have hSlash : sign ≠ '\\' := by
    rintro rfl
    simp at hSign
  intro c c' hTrails
  rcases cases_of_trails hMore hTrails with
    ⟨o, x, xs, rfl, rfl⟩ | hEnd
  · rw [value?_chomp_sign hText hKnown, value?_chomp_sign hText hKnown]
    by_cases hThere : x = sign
    · subst hThere
      simp only [↓reduceIte]
      exact .agrees (hTrails.tail hSlash (o + 1))
    · simp only [if_neg hThere]
      exact .agrees hTrails
  · have hOther : sign ∈ ['|', '*', ',', '(', ':'] :=
      List.mem_append_left ['(', ':'] hSign
    rcases head?_of_atBlanks hEnd sign hOther with ⟨hNone, hNone'⟩
    rw [value?_chomp_none hText hKnown hNone,
      value?_chomp_none hText hKnown hNone']
    exact .agrees hTrails

omit hMore in
/- A bracket that is closed, but not behind the text, is closed in it. -/
theorem readBalanced?_of_append
    {opening closing : Char}
    (hClosing : closing ∉ ['\\', '"', '\'', opening])
    (hNone : closing ∉ more)
    {text content rest : List Char}
    (h : readBalanced? opening closing 0 none (text ++ more) =
      some (content, rest)) :
    ∃ rest', readBalanced? opening closing 0 none text =
      some (content, rest') := by
  have hText := (spans_of_readBalanced? h).isBalanced hClosing
  rcases List.append_eq_append_iff.1 (readBalanced?_split h) with
    ⟨front, _, hMore⟩ | ⟨front, hText', hMore⟩
  · exact absurd (hMore ▸ by simp) hNone
  · cases front with
    | nil =>
        rw [List.nil_append] at hMore
        exact absurd (hMore ▸ List.mem_cons_self) hNone
    | cons x front =>
        cases hMore
        rw [hText']
        exact ⟨front, readBalanced?_of_isBalanced hText front⟩

/-
  A bracketed text ends in both texts alike, since no blank is
  a bracket.
-/
theorem follows_balanced
    {opening closing : Char}
    (hBrackets : areBrackets opening closing = true)
    (code : Code) :
    Follows more taken inName (fun _ => false) Never
      (balanced opening closing code) := by
  have hBoth :
      closing ∈ [')', ']'] ∧ closing ∉ ['\\', '"', '\'', opening] ∧
        Text.isBlank opening = false ∧ Text.isBlank closing = false ∧
          opening ≠ '\\' := by
    rcases cases_of_areBrackets hBrackets with ⟨rfl, rfl⟩ | ⟨rfl, rfl⟩
    · decide
    · decide
  rcases hBoth with ⟨hClosing, hOther, hUnblank, hUnblank', hSlash⟩
  intro c c' hTrails
  rcases cases_of_trails hMore hTrails with
    ⟨o, x, xs, rfl, rfl⟩ | ⟨hEnd, hBlanks⟩
  · by_cases hThere : x = opening
    · subst hThere
      rcases hTrails.text.cons with ⟨_, hTrim, hTaken⟩
      cases hRead : readBalanced? x closing 0 none xs with
      | some read =>
          rcases read with ⟨content, rest⟩
          have hRead' := readBalanced?_append hRead more
          have hSuffix : rest <:+ x :: xs := by
            rw [readBalanced?_split hRead]
            exact ⟨x :: content ++ [closing], by simp⟩
          rw [takesBlank_cons hSlash,
            takesBlank_balanced hClosing hRead] at hTaken
          simp only [value?, balanced, ↓reduceIte, hRead, hRead']
          refine .agrees (hTrails.moveTo hSuffix ?_)
          exact trailed_append (Text.trimEnd_of_suffix hTrim hSuffix) hTaken
      | none =>
          have hNone : closing ∉ more := by
            intro hMem
            simp [hMore closing hMem] at hUnblank'
          have hRead' :
              readBalanced? x closing 0 none (xs ++ more) = none := by
            rw [Option.eq_none_iff_forall_ne_some]
            rintro ⟨content, rest⟩ hSome
            rcases readBalanced?_of_append hOther hNone hSome with
              ⟨rest', hBefore⟩
            simp [hRead] at hBefore
          simp only [value?, balanced, ↓reduceIte, hRead, hRead']
          exact .fails
    · simp only [value?, balanced, if_neg hThere]
      exact .fails
  · rcases c with ⟨o, rest⟩
    rcases c' with ⟨o', after⟩
    cases hEnd
    cases after with
    | nil => exact .fails
    | cons y ys =>
        have hNone : y ≠ opening := by
          rintro rfl
          simp [hBlanks y (by simp)] at hUnblank
        simp only [value?, balanced, if_neg hNone]
        exact .fails

theorem follows_parenthesized (name : String) :
    Follows more taken inName (fun _ => false) Never
      (parenthesized name) := by
  have hValue :
      ∀ c, value? (parenthesized name) c =
        value? (balanced '(' ')' .unbalancedParenthesis) c := by
    intro c
    rw [parenthesized, value?_bind, value?_peek?, Option.bind_some]
    by_cases hThere : c.rest.head? = some '('
    · simp only [if_pos hThere]
    · simp only [if_neg hThere]
      rcases c with ⟨o, rest⟩
      cases rest with
      | nil => rfl
      | cons x xs =>
          have hOther : x ≠ '(' := by simpa using hThere
          simp [value?, balanced, hOther, fail, isAtEnd, Bind.bind,
            EStateM.bind]
  intro c c' hTrails
  rw [hValue, hValue]
  exact follows_balanced hMore rfl _ c c' hTrails

/- So an argument is the same in both texts. -/
theorem follows_argument (name : String) :
    Follows more taken inName (fun _ => false) Never (argument name) := by
  refine (follows_parenthesized hMore name).bind_never fun part => ?_
  exact .ite (.of_none fun _ => rfl) (.pure rfl)

------------------------------------------------------------
-- Names and Attribute Tests
------------------------------------------------------------

theorem follows_tagName :
    Follows more taken true (fun _ => false)
      (fun name name' => name.length < name'.length) tagName := by
  refine (follows_identifier hMore).map fun name name' hLess => ?_
  have hLength : ∀ s : String, (Text.asciiLowerString s).length = s.length := by
    intro s
    simp [Text.asciiLowerString, Text.asciiLower, String.length_toList]
  rwa [hLength, hLength]

/- What may follow a star or a name for a namespace. -/
theorem follows_namespace
    (plain any : Selector E)
    {make : String → Selector E}
    (hMake : Function.Injective make) :
    Follows more taken false (fun _ => false) (· ≠ ·) (do
      if ← chomp "|" then
        if ← chomp "*" then return any
        else return make (← tagName)
      else
        return plain) := by
  have hBar : "|".toList = ['|'] := rfl
  have hStar : "*".toList = ['*'] := rfl
  refine (follows_chomp hMore hBar (by simp)).bind_never fun bar => ?_
  cases bar with
  | false => exact .pure rfl
  | true =>
      refine (follows_chomp hMore hStar (by simp)).bind_never fun star => ?_
      cases star with
      | true => exact .pure rfl
      | false =>
          refine (follows_tagName hMore).bind (fun _ => .pure rfl) ?_
          intro name name' hLess
          refine endsApart_pure fun hSame => ?_
          rw [hMake hSame] at hLess
          omega

theorem follows_afterStar :
    Follows more taken false (fun _ => false) (· ≠ ·) (afterStar E) :=
  follows_namespace hMore .universal .universal fun _ _ hSame => by
    simpa using hSame

theorem follows_afterName (name : String) :
    Follows more taken false (fun _ => false) (· ≠ ·) (afterName E name) :=
  follows_namespace hMore (.tag (.name name)) (.tag (.namespaceOnly name))
    fun _ _ hSame => by simpa using hSame

omit hMore in
/- Where no bar follows, a name is a test of its own. -/
theorem value?_afterName
    {c : Cursor}
    (hNone : c.rest.head? ≠ some '|')
    (name : String) :
    value? (afterName E name) c = some (.tag (.name name), c) := by
  have hBar : "|".toList = ['|'] := rfl
  rw [afterName, value?_bind, value?_chomp_none hBar (by simp) hNone]
  rfl

omit hMore in
theorem endsApart_afterName
    {name name' : String}
    (hLess : name.length < name'.length) :
    EndsApart (· ≠ ·) (afterName E name) (afterName E name') := by
  intro d d' hEnd s e s' e' hRead hRead'
  rcases head?_of_atBlanks hEnd '|' (by simp) with ⟨hNone, hNone'⟩
  rw [value?_afterName hNone] at hRead
  rw [value?_afterName hNone'] at hRead'
  cases hRead
  cases hRead'
  refine ⟨?_, hEnd⟩
  rintro ⟨⟩
  omega

theorem follows_namePart :
    Follows more taken true (fun _ => false) (· ≠ ·) (namePart E) :=
  (follows_tagName hMore).bind (follows_afterName hMore) fun _ _ hLess =>
    endsApart_afterName hLess

theorem follows_attributeTest :
    Follows more taken inName (fun _ => false) Never (attributeTest E) :=
  (follows_balanced hMore rfl _).bind_never fun part =>
    follows_within part (bracketed E)

------------------------------------------------------------
-- Pseudo-Classes
------------------------------------------------------------

theorem follows_indexArgument (name : String) :
    Follows more taken inName (fun _ => false) Never
      (indexArgument name) := by
  refine (follows_argument hMore name).bind_never fun part => ?_
  cases readIndex? part.rest with
  | some n => exact .pure rfl
  | none => exact .of_none fun _ => rfl

theorem follows_formulaArgument (name : String) :
    Follows more taken inName (fun _ => false) Never
      (formulaArgument name) := by
  refine (follows_argument hMore name).bind_never fun part => ?_
  cases Formula.parse? (argumentText part) with
  | some formula => exact .pure rfl
  | none => exact .of_none fun _ => rfl

theorem follows_textArgument (name : String) (resolve : Bool) :
    Follows more taken inName (fun _ => false) Never
      (textArgument name resolve) := by
  refine (follows_argument hMore name).bind_never fun part => .ite ?_ ?_
  · refine (follows_within _ _).bind_never fun text => .ite ?_ (.pure rfl)
    exact .of_none fun _ => rfl
  · exact .ite (.pure rfl) (.pure rfl)

variable {nested : Cursor → Except Fault (Selector E)}

theorem follows_meaning
    (before : List (Selector E))
    (name : String)
    (known : PseudoClass E) :
    Follows more taken false (fun _ => false) Never
      (meaning nested before name known) := by
  cases known with
  | plain s => exact .pure rfl
  | index test =>
      exact (follows_indexArgument hMore name).bind_never fun _ => .pure rfl
  | position kind =>
      exact (follows_formulaArgument hMore name).bind_never fun _ =>
        .pure rfl
  | nested nesting =>
      refine (follows_argument hMore name).bind_never fun part => ?_
      exact (follows_ofExcept (nested part)).bind_never fun _ => .pure rfl
  | contains source =>
      exact (follows_textArgument hMore name true).bind_never fun _ =>
        .pure rfl
  | matchesText source =>
      refine (follows_textArgument hMore name false).bind_never fun text => ?_
      exact (follows_pattern _ _ _).bind_never fun _ => .pure rfl

omit hMore in
/- Without a parenthesis nothing but the name has a meaning. -/
theorem eq_plain_of_meaning
    {before : List (Selector E)}
    {name : String}
    {known : PseudoClass E}
    {c d : Cursor}
    {s : Selector E}
    (hNone : c.rest.head? ≠ some '(')
    (h : value? (meaning nested before name known) c = some (s, d)) :
    known = .plain s ∧ d = c := by
  have hArgument : value? (argument name) c = none := by
    rw [Option.eq_none_iff_forall_ne_some]
    rintro ⟨part, e⟩ hRead
    rcases argument_eq_ok_iff.1 (value?_eq_some_iff.1 hRead) with
      ⟨text, _, _, hCons, _⟩
    simp [hCons] at hNone
  cases known with
  | plain t =>
      cases h
      exact ⟨rfl, rfl⟩
  | index test => simp [meaning, indexArgument, hArgument] at h
  | position kind => simp [meaning, formulaArgument, hArgument] at h
  | nested nesting => simp [meaning, hArgument] at h
  | contains source => simp [meaning, textArgument, hArgument] at h
  | matchesText source => simp [meaning, textArgument, hArgument] at h

omit hMore in
/- A pseudo-class without an argument is written as its name. -/
theorem text_of_pseudoClass?
    {name : String}
    {s : Selector E}
    (h : pseudoClass? E name = some (.plain s)) :
    s.text = ":" ++ name := by
  rcases plain_cases h with
    ⟨rfl, rfl⟩ | ⟨rfl, rfl⟩ | ⟨rfl, rfl⟩ | ⟨rfl, rfl⟩ | ⟨rfl, rfl⟩ |
      ⟨rfl, rfl⟩ | ⟨rfl, rfl⟩ | ⟨rfl, rfl⟩ | ⟨rfl, rfl⟩ <;>
    rfl

theorem follows_pseudoClassName (start : Nat) :
    Follows more taken true (fun _ => false)
      (fun name name' => name.length < name'.length)
      (pseudoClassName start) := by
  have hName :
      Follows more taken true (fun _ => false)
        (fun name name' => name.length < name'.length)
        (Text.asciiLowerString <$> identifier) :=
    follows_tagName hMore
  intro c c' hTrails
  rw [pseudoClassName, value?_bind, value?_bind, value?_peek?,
    value?_peek?, Option.bind_some, Option.bind_some]
  rcases cases_of_trails hMore hTrails with
    ⟨o, x, xs, rfl, rfl⟩ | hEnd
  · by_cases hColon : x = ':'
    · simp only [List.head?_cons, hColon, ↓reduceIte]
      exact .fails
    · simp only [List.head?_cons, Option.some.injEq, if_neg hColon]
      exact hName _ _ hTrails
  · rcases head?_of_atBlanks hEnd ':' (by simp) with
      ⟨hNone, hNone'⟩
    simp only [if_neg hNone, if_neg hNone']
    exact hName _ _ hTrails

/- The names of two pseudo-classes differ, and so do their meanings. -/
theorem follows_named (before : List (Selector E)) (start : Nat) :
    Follows more taken true (fun _ => false) (· ≠ ·)
      (pseudoClassName start >>= fun name =>
        match pseudoClass? E name with
        | some known => meaning nested before name known
        | none => failAt start (.unknownPseudoClass name)) := by
  refine (follows_pseudoClassName hMore start).bind ?_ ?_
  · intro name
    cases pseudoClass? E name with
    | none => exact .of_none fun _ => rfl
    | some known => exact (follows_meaning hMore before name known).of_never
  · intro name name' hLess d d' hEnd s e s' e' hRead hRead'
    rcases head?_of_atBlanks hEnd '(' (by simp) with
      ⟨hNone, hNone'⟩
    cases hKnown : pseudoClass? E name with
    | none => simp [hKnown] at hRead
    | some known =>
        cases hKnown' : pseudoClass? E name' with
        | none => simp [hKnown'] at hRead'
        | some known' =>
            rw [hKnown] at hRead
            rw [hKnown'] at hRead'
            rcases eq_plain_of_meaning hNone hRead with ⟨rfl, rfl⟩
            rcases eq_plain_of_meaning hNone' hRead' with ⟨rfl, rfl⟩
            refine ⟨?_, hEnd⟩
            rintro rfl
            have hText := text_of_pseudoClass? hKnown
            rw [text_of_pseudoClass? hKnown'] at hText
            have hSame : name' = name := by simpa using hText
            rw [hSame] at hLess
            omega

theorem follows_markedName
    {make : String → Selector E}
    (hMake : Function.Injective make) :
    Follows more taken true (fun _ => false) (· ≠ ·) (do
      return make (← identifier)) := by
  refine (follows_identifier hMore).bind (fun _ => .pure rfl) ?_
  intro name name' hLess
  refine endsApart_pure fun hSame => ?_
  rw [hMake hSame] at hLess
  omega

------------------------------------------------------------
-- Parts
------------------------------------------------------------

omit hMore in
/- Of a sign and what follows it, the rest is read behind the sign. -/
theorem follow_advance
    {next : Unit → Scan α}
    {after : α → Bool}
    {Apart : α → α → Prop}
    {o : Nat}
    {x : Char}
    {xs : List Char}
    (hTrails : Trails more taken inName ⟨o, x :: xs⟩ ⟨o, x :: (xs ++ more)⟩)
    (hSlash : x ≠ '\\')
    (hNext : Follows more taken (leadsName x) after Apart (next ())) :
    Follow more taken after Apart
      (value? (advance >>= next) ⟨o, x :: xs⟩)
      (value? (advance >>= next) ⟨o, x :: (xs ++ more)⟩) := by
  rw [value?_bind, value?_bind, value?_advance_cons, value?_advance_cons,
    Option.bind_some, Option.bind_some]
  exact hNext _ _ (hTrails.tail hSlash (o + x.utf8Size))

/- A part begins with the same character in both texts. -/
theorem follow_partWith
    {before : List (Selector E)}
    {start : PartStart}
    {isFirst : Bool}
    {o : Nat}
    {x : Char}
    {xs : List Char}
    (hTrails : Trails more taken inName ⟨o, x :: xs⟩ ⟨o, x :: (xs ++ more)⟩)
    (hStart : partStart? isFirst x = some start) :
    Follow more taken (fun _ => false) (· ≠ ·)
      (value? (partWith nested before start) ⟨o, x :: xs⟩)
      (value? (partWith nested before start) ⟨o, x :: (xs ++ more)⟩) := by
  have hName := hTrails.of_ne_nil (by simp) true
  unfold partStart? at hStart
  split_ifs at hStart with hHash hDot hBracket hColon hFirst hStar hChar
  · cases hStart
    subst hHash
    exact follow_advance hTrails (by decide)
      (follows_markedName hMore fun _ _ hSame => by simpa using hSame)
  · cases hStart
    subst hDot
    exact follow_advance hTrails (by decide)
      (follows_markedName hMore fun _ _ hSame => by simpa using hSame)
  · cases hStart
    exact (follows_attributeTest hMore).of_never _ _ hTrails
  · cases hStart
    subst hColon
    rw [partWith, pseudoClass, value?_bind, value?_bind, value?_offset,
      value?_offset, Option.bind_some, Option.bind_some]
    exact follow_advance hTrails (by decide) (follows_named hMore before o)
  · cases hStart
    subst hStar
    exact follow_advance hTrails (by decide) (follows_afterStar hMore)
  · cases hStart
    exact follows_namePart hMore _ _ hName

omit hMore in
/- Neither the end of the text nor a blank begins a further part. -/
theorem partStart?_of_atBlanks
    {c c' : Cursor}
    (h : AtBlanks c c') :
    c.rest.head?.bind (partStart? false) = none ∧
      c'.rest.head?.bind (partStart? false) = none := by
  refine ⟨by simp [h.1], ?_⟩
  cases hHead : c'.rest.head? with
  | none => rfl
  | some x =>
      have hBlank := h.2.head hHead
      simp [partStart?, ne_of_isBlank hBlank]

/- Two parts are there and differ. -/
def PartsApart : Option (Selector E) → Option (Selector E) → Prop
| some s, some s' => s ≠ s'
| _, _ => False

/-
  Behind other parts the end of the text begins no part, and
  neither does a blank.
-/
theorem follow_part?
    {before : List (Selector E)}
    {c c' : Cursor}
    (hTrails : Trails more taken false c c')
    (hSome : before = [] → c.rest ≠ []) :
    Follow more taken (fun _ => false) PartsApart
      (value? (part? nested before) c)
      (value? (part? nested before) c') := by
  rw [value?_part?, value?_part?]
  rcases cases_of_trails hMore hTrails with
    ⟨o, x, xs, rfl, rfl⟩ | hEnd
  · simp only [List.head?_cons, Option.bind_some]
    cases hStart : partStart? before.isEmpty x with
    | none => exact .agrees hTrails
    | some start =>
        simp only [Option.map_eq_bind]
        refine (follow_partWith hMore hTrails hStart).bind ?_ ?_
        · intro s d d' _ hTrails'
          exact .agrees hTrails'
        · rintro s d s' d' ⟨hApart, hEnd⟩ b e b' e' hRead hRead'
          cases hRead
          cases hRead'
          exact ⟨hApart, hEnd⟩
  · have hFirst : before.isEmpty = false := by
      rw [List.isEmpty_eq_false_iff]
      exact fun hNil => hSome hNil hEnd.1
    rcases partStart?_of_atBlanks hEnd with ⟨hNone, hNone'⟩
    rw [hFirst, hNone, hNone']
    exact .agrees hTrails

end Blanks

end Scan

end TreeQuery
