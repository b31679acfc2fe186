import TreeQuery.Proofs.Reading.Attribute
import TreeQuery.Proofs.Reading.PseudoClass

/-
  Parts that are read again from their text.

  A legible part is read from its text, wherever the text
  stands, if what follows cannot continue it.  Only where a
  needle is empty is nothing read.

  Key definitions include:
    * `endsPart`
    * `TagSelector.map`
    * `Selector.ReadsBack`

  Main statements:
    * `Selector.value?_part?_map`
    * `Selector.IsPart.value?_part?`
-/

namespace TreeQuery

variable {E : Engine}

------------------------------------------------------------
-- Ends of Parts
------------------------------------------------------------

/- A part before the text ends there. -/
def endsPart : List Char → Bool
| [] => true
| x :: _ => !isIdentifierChar x && x != '\\' && x != '|'

theorem endsName_of_endsPart
    {text : List Char}
    (h : endsPart text = true) :
    endsName text = true := by
  cases text with
  | nil => rfl
  | cons x xs =>
      simp only [endsPart, Bool.and_eq_true] at h
      simp only [endsName, Bool.and_eq_true]
      exact h.1

------------------------------------------------------------
-- Name Tests
------------------------------------------------------------

namespace TagSelector

/- The names of a name test. -/
def names : TagSelector → List String
| .name s => [s]
| .anyNamespace l => [l]
| .namespaceOnly q => [q]
| .qualified q l => [q, l]

/- A name test with other names in place of its own. -/
def map (f : String → String) : TagSelector → TagSelector
| .name s => .name (f s)
| .anyNamespace l => .anyNamespace (f l)
| .namespaceOnly q => .namespaceOnly (f q)
| .qualified q l => .qualified (f q) (f l)

theorem map_eq_self
    {f : String → String}
    {test : TagSelector}
    (h : ∀ name ∈ test.names, f name = name) :
    test.map f = test := by
  cases test with
  | name s => simp [map, h s (by simp [names])]
  | anyNamespace l => simp [map, h l (by simp [names])]
  | namespaceOnly q => simp [map, h q (by simp [names])]
  | qualified q l =>
      simp [map, h q (by simp [names]), h l (by simp [names])]

/- The names of a legible name test are names. -/
theorem isName_of_isLegible
    {test : TagSelector}
    (h : test.isLegible = true)
    {name : String}
    (hMem : name ∈ test.names) :
    isName name.toList = true := by
  cases test with
  | name s =>
      simp only [isLegible, Bool.and_eq_true] at h
      rw [List.mem_singleton.1 hMem]
      exact h.1
  | anyNamespace l =>
      rw [List.mem_singleton.1 hMem]
      exact h
  | namespaceOnly q =>
      simp only [isLegible, Bool.and_eq_true] at h
      rw [List.mem_singleton.1 hMem]
      exact h.1
  | qualified q l =>
      simp only [isLegible, Bool.and_eq_true] at h
      rcases List.mem_pair.1 hMem with rfl | rfl
      · exact h.1.1
      · exact h.2

/- If it begins with a name, it does not begin with a blank. -/
theorem startsUnblank_of_isLegible
    {test : TagSelector}
    (h : test.isLegible = true)
    (hOther : ∀ l, test ≠ .anyNamespace l)
    {name : String}
    (hHead : name ∈ test.names.head?) :
    startsUnblank name.toList = true := by
  cases test with
  | name s =>
      cases hHead
      exact (Bool.and_eq_true_iff.1 h).2
  | anyNamespace l => exact absurd rfl (hOther l)
  | namespaceOnly q =>
      cases hHead
      exact (Bool.and_eq_true_iff.1 h).2
  | qualified q l =>
      cases hHead
      exact (Bool.and_eq_true_iff.1 (Bool.and_eq_true_iff.1 h).1).2

/- Those of a name test that has been read have no capitals. -/
theorem asciiLowerString_of_isSmall
    {test : TagSelector}
    (h : test.IsSmall)
    {name : String}
    (hMem : name ∈ test.names) :
    Text.asciiLowerString name = name := by
  cases test with
  | name s =>
      rw [List.mem_singleton.1 hMem]
      exact h.2
  | anyNamespace l =>
      rw [List.mem_singleton.1 hMem]
      exact h.2
  | namespaceOnly q =>
      rw [List.mem_singleton.1 hMem]
      exact h.2
  | qualified q l =>
      rcases List.mem_pair.1 hMem with rfl | rfl
      · exact h.1.2
      · exact h.2.2

/-
  A name test begins with a star for its qualifier, or with
  what is written for the first of its names.
-/
theorem head_map
    {P : Char → Prop}
    {write : String → String}
    {test : TagSelector}
    (hFirst : ∀ name ∈ test.names.head?,
      ∃ x xs, (write name).toList = x :: xs ∧ P x) :
    ∃ x xs, (test.map write).text.toList = x :: xs ∧
      ((∃ l, test = .anyNamespace l) ∧ x = '*' ∨ P x) := by
  cases test with
  | name s =>
      rcases hFirst s rfl with ⟨x, xs, hText, hStart⟩
      exact ⟨x, xs, hText, .inr hStart⟩
  | anyNamespace l =>
      exact ⟨'*', '|' :: (write l).toList, by simp [map, text],
        .inl ⟨⟨l, rfl⟩, rfl⟩⟩
  | namespaceOnly q =>
      rcases hFirst q rfl with ⟨x, xs, hText, hStart⟩
      exact ⟨x, xs ++ "|*".toList, by simp [map, text, hText], .inr hStart⟩
  | qualified q l =>
      rcases hFirst q rfl with ⟨x, xs, hText, hStart⟩
      exact ⟨x, xs ++ '|' :: (write l).toList, by simp [map, text, hText],
        .inr hStart⟩

/- A legible one that begins with a name begins without a blank. -/
theorem head_text
    {test : TagSelector}
    (hLegible : test.isLegible = true)
    (hOther : ∀ l, test ≠ .anyNamespace l) :
    ∃ x xs, test.text.toList = x :: xs ∧
      Text.isBlank x = false ∧ isIdentifierChar x = true := by
  have hFirst :
      ∀ name ∈ test.names.head?, ∃ x xs, name.toList = x :: xs ∧
        Text.isBlank x = false ∧ isIdentifierChar x = true := by
    intro name hHead
    have hName := isName_of_isLegible hLegible (List.mem_of_mem_head? hHead)
    have hUnblank := startsUnblank_of_isLegible hLegible hOther hHead
    rcases Scan.head_of_isName hName with ⟨x, xs, hText, hChar⟩
    rw [hText] at hUnblank
    exact ⟨x, xs, hText, by simpa [startsUnblank] using hUnblank, hChar⟩
  have hWritten : (test.map fun name => name) = test :=
    map_eq_self fun name _ => rfl
  rcases head_map hFirst with ⟨x, xs, hText, ⟨⟨l, hTest⟩, _⟩ | hStart⟩
  · exact absurd hTest (hOther l)
  · rw [hWritten] at hText
    exact ⟨x, xs, hText, hStart⟩

end TagSelector

namespace Scan

------------------------------------------------------------
-- Names and Stars
------------------------------------------------------------

/- No bar comes next where a part ends. -/
theorem value?_chomp_bar
    {rest : List Char}
    (hRest : endsPart rest = true)
    (o : Nat) :
    value? (chomp "|") ⟨o, rest⟩ = some (false, ⟨o, rest⟩) := by
  have hText : "|".toList = ['|'] := rfl
  rw [value?_chomp_sign hText (by simp)]
  cases rest with
  | nil => rfl
  | cons x xs =>
      simp only [endsPart, Bool.and_eq_true, bne_iff_ne] at hRest
      simp [hRest.2]

theorem value?_tagName
    {text rest : List Char}
    {name : String}
    (hText : WritesName text name.toList)
    (hRest : endsName rest = true)
    (o : Nat) :
    value? tagName ⟨o, text ++ rest⟩ =
      some (Text.asciiLowerString name,
        ⟨o + Text.byteLength text, rest⟩) := by
  have hRead := identifier_of_writesName hText hRest o
  rw [String.ofList_toList] at hRead
  rw [tagName, value?_map, value?_eq_some_iff.2 hRead, Option.map_some]

/- A name does not begin with a star. -/
theorem value?_chomp_star
    {text name : List Char}
    (hText : WritesName text name)
    (rest : List Char)
    (o : Nat) :
    value? (chomp "*") ⟨o, text ++ rest⟩ =
      some (false, ⟨o, text ++ rest⟩) := by
  have hSign : "*".toList = ['*'] := rfl
  rcases hText.exists_cons with ⟨x, xs, rfl, hChar⟩
  have hOther : x ≠ '*' := by
    rintro rfl
    revert hChar
    decide
  rw [value?_chomp_sign hSign (by simp)]
  simp [hOther]

theorem value?_chomp_there
    {text : String}
    {sign : Char}
    (hText : text.toList = [sign])
    (hSign : sign ∈ ['|', '*', '^', ','])
    (rest : List Char)
    (o : Nat) :
    value? (chomp text) ⟨o, sign :: rest⟩ = some (true, ⟨o + 1, rest⟩) := by
  rw [value?_chomp_sign hText hSign]
  simp

/- A star alone is read again. -/
theorem value?_starPart
    {rest : List Char}
    (hRest : endsPart rest = true)
    (o : Nat) :
    ∃ o', value? (starPart E) ⟨o, '*' :: rest⟩ =
      some (.universal, ⟨o', rest⟩) := by
  refine ⟨o + '*'.utf8Size, ?_⟩
  rw [starPart, value?_bind, value?_advance_cons, Option.bind_some,
    afterStar]
  simp only [value?_bind, value?_chomp_bar hRest]
  rfl

section NameTests

/-
  The texts that are written for names.  A name test is read
  with the small letters of the names.
-/
variable {write : String → String}
variable {test : TagSelector}
variable
  (hNames : ∀ name ∈ test.names,
    WritesName (write name).toList name.toList)
variable {rest : List Char} (hRest : endsPart rest = true)

include hNames hRest

/- A name test with a star for its qualifier is read from its text. -/
theorem value?_starPart_name
    {localPart : String}
    (hTest : test = .anyNamespace localPart)
    (o : Nat) :
    ∃ o', value? (starPart E) ⟨o, (test.map write).text.toList ++ rest⟩ =
      some (.tag (test.map Text.asciiLowerString), ⟨o', rest⟩) := by
  have hBar : "|".toList = ['|'] := rfl
  have hLocal := hNames localPart (by simp [hTest, TagSelector.names])
  have hText :
      (test.map write).text.toList ++ rest =
        '*' :: '|' :: ((write localPart).toList ++ rest) := by
    simp [hTest, TagSelector.map, TagSelector.text]
  refine ⟨o + '*'.utf8Size + 1 + Text.byteLength (write localPart).toList, ?_⟩
  rw [hText, hTest, starPart, value?_bind, value?_advance_cons,
    Option.bind_some, afterStar]
  simp only [value?_bind, value?_chomp_there hBar (by simp : '|' ∈ _),
    Option.bind_some, ↓reduceIte, value?_chomp_star hLocal,
    Bool.false_eq_true, value?_tagName hLocal (endsName_of_endsPart hRest)]
  rfl

/- A name test that begins with a name is, too. -/
theorem value?_namePart
    (hOther : ∀ l, test ≠ .anyNamespace l)
    (o : Nat) :
    ∃ o', value? (namePart E) ⟨o, (test.map write).text.toList ++ rest⟩ =
      some (.tag (test.map Text.asciiLowerString), ⟨o', rest⟩) := by
  have hBar : "|".toList = ['|'] := rfl
  have hStar : "*".toList = ['*'] := rfl
  have hBarEnds : ∀ xs, endsName ('|' :: xs) = true := fun xs => rfl
  cases test with
  | name s =>
      have hName := hNames s (by simp [TagSelector.names])
      refine ⟨o + Text.byteLength (write s).toList, ?_⟩
      rw [TagSelector.map, TagSelector.text, namePart, value?_bind,
        value?_tagName hName (endsName_of_endsPart hRest), Option.bind_some]
      simp only [afterName, value?_bind, value?_chomp_bar hRest]
      rfl
  | anyNamespace l => exact absurd rfl (hOther l)
  | namespaceOnly q =>
      have hName := hNames q (by simp [TagSelector.names])
      have hText :
          ((TagSelector.namespaceOnly q).map write).text.toList ++ rest =
            (write q).toList ++ '|' :: '*' :: rest := by
        simp [TagSelector.map, TagSelector.text]
      refine ⟨o + Text.byteLength (write q).toList + 1 + 1, ?_⟩
      rw [hText, namePart, value?_bind,
        value?_tagName hName (hBarEnds _), Option.bind_some]
      simp only [afterName, value?_bind,
        value?_chomp_there hBar (by simp : '|' ∈ _),
        value?_chomp_there hStar (by simp : '*' ∈ _),
        Option.bind_some, ↓reduceIte]
      rfl
  | qualified q l =>
      have hName := hNames q (by simp [TagSelector.names])
      have hLocal := hNames l (by simp [TagSelector.names])
      have hText :
          ((TagSelector.qualified q l).map write).text.toList ++ rest =
            (write q).toList ++ '|' :: ((write l).toList ++ rest) := by
        simp [TagSelector.map, TagSelector.text]
      refine ⟨o + Text.byteLength (write q).toList + 1 +
        Text.byteLength (write l).toList, ?_⟩
      rw [hText, namePart, value?_bind,
        value?_tagName hName (hBarEnds _), Option.bind_some]
      simp only [afterName, value?_bind,
        value?_chomp_there hBar (by simp : '|' ∈ _),
        value?_chomp_star hLocal, Option.bind_some, ↓reduceIte,
        Bool.false_eq_true,
        value?_tagName hLocal (endsName_of_endsPart hRest)]
      rfl

end NameTests

/- A name behind a sign is read again. -/
theorem value?_markedName
    {name : String}
    {rest : List Char}
    (hName : isName name.toList = true)
    (hRest : endsPart rest = true)
    (make : String → Selector E)
    (sign : Char)
    (o : Nat) :
    ∃ o', value? (markedName make) ⟨o, sign :: (name.toList ++ rest)⟩ =
      some (make name, ⟨o', rest⟩) := by
  refine ⟨o + sign.utf8Size + Text.byteLength name.toList, ?_⟩
  rw [markedName, value?_bind, value?_advance_cons, Option.bind_some]
  simp only [value?_bind,
    value?_identifier hName (endsName_of_endsPart hRest)]
  rfl

------------------------------------------------------------
-- Calls
------------------------------------------------------------

variable (nested : Cursor → Except Fault (Selector E))

/- A colon begins a pseudo-class wherever a part may stand. -/
theorem value?_part?_colon
    (before : List (Selector E))
    (o : Nat)
    (rest : List Char) :
    value? (part? nested before) ⟨o, ':' :: rest⟩ =
      (value? (pseudoClass nested before) ⟨o, ':' :: rest⟩).map
        fun (s, d) => (some s, d) := by
  rw [value?_part?]
  simp [partStart?, partWith]

/- So does a bracket an attribute test. -/
theorem value?_part?_bracket
    (before : List (Selector E))
    (o : Nat)
    (rest : List Char) :
    value? (part? nested before) ⟨o, '[' :: rest⟩ =
      (value? (attributeTest E) ⟨o, '[' :: rest⟩).map
        fun (s, d) => (some s, d) := by
  rw [value?_part?]
  simp [partStart?, partWith]

/- A pseudo-class without an argument is read from its name. -/
theorem value?_part?_plain
    {name : String}
    {s : Selector E}
    {rest : List Char}
    (hKnown :
      pseudoClass? E (Text.asciiLowerString name) = some (.plain s))
    (hRest : endsPart rest = true)
    (before : List (Selector E))
    (o : Nat) :
    ∃ o', value? (part? nested before) ⟨o, ':' :: (name.toList ++ rest)⟩ =
      some (some s, ⟨o', rest⟩) := by
  rcases value?_pseudoClass nested hKnown (endsName_of_endsPart hRest)
    before o with ⟨e, hRead⟩
  refine ⟨e, ?_⟩
  rw [value?_part?_colon nested, hRead, meaning, value?_pure]
  rfl

/- One with an argument is read from its name and the argument. -/
theorem value?_part?_call
    {name : String}
    {known : PseudoClass E}
    (hKnown : pseudoClass? E (Text.asciiLowerString name) = some known)
    (before : List (Selector E))
    (argument rest : List Char)
    (o : Nat) :
    ∃ e, value? (part? nested before)
        ⟨o, ':' :: (name.toList ++ ('(' :: argument ++ ')' :: rest))⟩ =
      (value? (meaning nested before (Text.asciiLowerString name) known)
        ⟨e, '(' :: argument ++ ')' :: rest⟩).map
          fun (s, d) => (some s, d) := by
  rcases value?_pseudoClass nested hKnown
    (rfl : endsName ('(' :: argument ++ ')' :: rest) = true) before o with
    ⟨e, hRead⟩
  refine ⟨e, ?_⟩
  rw [value?_part?_colon nested, hRead]

end Scan

namespace Selector

/-
  A reader of selectors within a part gives what the text of a
  selector was written for, or nothing where a needle is
  empty.
-/
def ReadsBack
    (nested : Cursor → Except Fault (Selector E))
    (inner : Selector E) : Prop :=
  ∀ o, (nested ⟨o, inner.text.toList⟩).toOption =
    if inner.isFilled then some inner else none

variable {nested : Cursor → Except Fault (Selector E)}

/- What begins a name begins a part at the start of a compound. -/
theorem partStart?_name
    {x : Char}
    (h : isIdentifierChar x = true ∨ x = '\\') :
    Scan.partStart? true x = some .name := by
  rcases h with hChar | rfl
  · have hPlain := not_special_of_isIdentifierChar hChar
    simp only [List.mem_cons, List.not_mem_nil, or_false, not_or] at hPlain
    simp [Scan.partStart?, hChar, hPlain]
  · rfl

/- A name test is read from its text at the start of a compound. -/
theorem value?_part?_map
    {write : String → String}
    {test : TagSelector}
    (hNames : ∀ name ∈ test.names,
      WritesName (write name).toList name.toList)
    {rest : List Char}
    (hRest : endsPart rest = true)
    (o : Nat) :
    ∃ o', Scan.value? (Scan.part? nested [])
        ⟨o, (test.map write).text.toList ++ rest⟩ =
      some (some (.tag (test.map Text.asciiLowerString)), ⟨o', rest⟩) := by
  by_cases hStar : ∃ l, test = .anyNamespace l
  · rcases hStar with ⟨l, hTest⟩
    rcases Scan.value?_starPart_name (E := E) hNames hRest hTest o with
      ⟨o', hRead⟩
    have hText :
        (test.map write).text.toList ++ rest =
          '*' :: '|' :: ((write l).toList ++ rest) := by
      simp [hTest, TagSelector.map, TagSelector.text]
    refine ⟨o', ?_⟩
    rw [hText] at hRead ⊢
    rw [Scan.value?_part?]
    simp [Scan.partStart?, Scan.partWith, hRead]
  · have hOther : ∀ l, test ≠ .anyNamespace l :=
      fun l hTest => hStar ⟨l, hTest⟩
    rcases Scan.value?_namePart (E := E) hNames hRest hOther o with
      ⟨o', hRead⟩
    have hFirst :
        ∀ name ∈ test.names.head?, ∃ x xs, (write name).toList = x :: xs ∧
          (isIdentifierChar x = true ∨ x = '\\') :=
      fun name hHead =>
        (hNames name (List.mem_of_mem_head? hHead)).exists_cons
    rcases TagSelector.head_map hFirst with
      ⟨x, xs, hText, ⟨⟨l, hTest⟩, _⟩ | hChar⟩
    · exact absurd hTest (hOther l)
    refine ⟨o', ?_⟩
    rw [hText, List.cons_append] at hRead ⊢
    rw [Scan.value?_part?]
    simp only [List.head?_cons, Option.bind_some, List.isEmpty_nil,
      partStart?_name hChar, Scan.partWith, hRead, Option.map_some]

/- A legible name test is written without escapes and read again. -/
theorem value?_part?_tag
    {test : TagSelector}
    (hSmall : test.IsSmall)
    (hLegible : test.isLegible = true)
    {rest : List Char}
    (hRest : endsPart rest = true)
    (o : Nat) :
    ∃ o', Scan.value? (Scan.part? nested []) ⟨o, test.text.toList ++ rest⟩ =
      some (some (.tag test), ⟨o', rest⟩) := by
  have hNames : ∀ name ∈ test.names, WritesName name.toList name.toList :=
    fun name hMem =>
      writesName_of_isName (TagSelector.isName_of_isLegible hLegible hMem)
  have hWritten : (test.map fun name => name) = test :=
    TagSelector.map_eq_self fun name _ => rfl
  have hRead : test.map Text.asciiLowerString = test :=
    TagSelector.map_eq_self fun name hMem =>
      TagSelector.asciiLowerString_of_isSmall hSmall hMem
  rcases value?_part?_map hNames hRest o with ⟨o', hPart⟩
  rw [hWritten, hRead] at hPart
  exact ⟨o', hPart⟩

/- A position test is read again. -/
theorem value?_part?_position
    (nested : Cursor → Except Fault (Selector E))
    (kind : Position)
    (formula : Formula)
    (before : List (Selector E))
    {rest : List Char}
    (hRest : endsPart rest = true)
    (o : Nat) :
    ∃ o', Scan.value? (Scan.part? nested before)
        ⟨o, (kind.text formula).toList ++ rest⟩ =
      some (some (.position kind formula), ⟨o', rest⟩) := by
  by_cases hFirst : formula = .first
  · have hText :
        (kind.text formula).toList ++ rest =
          ':' :: (kind.firstName.toList ++ rest) := by
      simp [Position.text, hFirst]
    have hKnown :
        pseudoClass? E (Text.asciiLowerString kind.firstName) =
          some (.plain (.position kind .first)) := by
      cases kind <;> rfl
    rw [hText, hFirst]
    exact Scan.value?_part?_plain nested hKnown hRest before o
  · have hText :
        (kind.text formula).toList ++ rest =
          ':' :: (("nth-" ++ kind.name).toList ++
            ('(' :: formula.text.toList ++ ')' :: rest)) := by
      simp [Position.text, hFirst]
    have hKnown :
        pseudoClass? E (Text.asciiLowerString ("nth-" ++ kind.name)) =
          some (.position kind) := by
      cases kind <;> rfl
    rcases Scan.value?_part?_call nested hKnown before
      formula.text.toList rest o with ⟨e, hRead⟩
    rcases Scan.value?_formulaArgument formula _ rest e with
      ⟨o', hFormula⟩
    refine ⟨o', ?_⟩
    rw [hText, hRead, Scan.meaning, Scan.value?_bind, hFormula]
    rfl

/- An index is read again, with what stands before it. -/
theorem value?_part?_index
    (nested : Cursor → Except Fault (Selector E))
    (test : IndexTest)
    {n : Nat}
    (hFits : n < UInt64.size)
    (before : List (Selector E))
    (rest : List Char)
    (o : Nat) :
    ∃ o', Scan.value? (Scan.part? nested before)
        ⟨o, ':' :: (test.name.toList ++
          ('(' :: (toString n).toList ++ ')' :: rest))⟩ =
      some (some (.index test n (Scan.indexCandidate before)),
        ⟨o', rest⟩) := by
  have hKnown :
      pseudoClass? E (Text.asciiLowerString test.name) =
        some (.index test) := by
    cases test <;> rfl
  rcases Scan.value?_part?_call nested hKnown before
    (toString n).toList rest o with ⟨e, hRead⟩
  rcases Scan.value?_indexArgument hFits _ rest e with ⟨o', hIndex⟩
  refine ⟨o', ?_⟩
  rw [hRead, Scan.meaning, Scan.value?_bind, hIndex]
  rfl

/- A selector within a part is read again if its reader does so. -/
theorem value?_part?_nested
    (nesting : Nesting)
    {inner : Selector E}
    (hArgument : isArgument inner.text.toList = true)
    (hSome : inner.text.toList ≠ [])
    (hInner : ReadsBack nested inner)
    (before : List (Selector E))
    (rest : List Char)
    (o : Nat) :
    ∃ o', Scan.value? (Scan.part? nested before)
        ⟨o, (nesting.wrap inner).text.toList ++ rest⟩ =
      if inner.isFilled then some (some (nesting.wrap inner), ⟨o', rest⟩)
      else none := by
  have hTable :
      ∃ name,
        (nesting.wrap inner).text.toList ++ rest =
            ':' :: (name.toList ++
              ('(' :: inner.text.toList ++ ')' :: rest)) ∧
          pseudoClass? E (Text.asciiLowerString name) =
            some (.nested nesting) := by
    cases nesting with
    | has => exact ⟨"has", by simp [Nesting.wrap, text], rfl⟩
    | not => exact ⟨"not", by simp [Nesting.wrap, text], rfl⟩
    | is => exact ⟨"is", by simp [Nesting.wrap, text], rfl⟩
  rcases hTable with ⟨name, hText, hKnown⟩
  rcases Scan.value?_part?_call nested hKnown before
    inner.text.toList rest o with ⟨e, hRead⟩
  rcases Scan.value?_argument hArgument hSome _ rest e with
    ⟨o', hPart⟩
  refine ⟨o', ?_⟩
  rw [hText, hRead, Scan.meaning, Scan.value?_bind, hPart, Option.bind_some]
  simp only [Scan.value?_bind, Scan.value?_ofExcept, hInner _]
  by_cases hFilled : inner.isFilled = true
  · rw [if_pos hFilled, if_pos hFilled]
    rfl
  · rw [if_neg hFilled, if_neg hFilled]
    rfl

/- The needle of a text in quotes is read, unless the text is empty. -/
theorem value?_part?_contains
    (nested : Cursor → Except Fault (Selector E))
    (source : TextSource)
    (text : String)
    (before : List (Selector E))
    (rest : List Char)
    (o : Nat) :
    ∃ o', Scan.value? (Scan.part? nested before)
        ⟨o, (.containsText source text : Selector E).text.toList ++ rest⟩ =
      if text.isEmpty then none
      else some (some (.containsText source (Scan.needle source text)),
        ⟨o', rest⟩) := by
  have hText :
      (.containsText source text : Selector E).text.toList ++ rest =
        ':' :: (("contains" ++ source.ending).toList ++
          ('(' :: (Text.quoted text).toList ++ ')' :: rest)) := by
    simp [Selector.text]
  have hKnown :
      pseudoClass? E (Text.asciiLowerString ("contains" ++ source.ending)) =
        some (.contains source) := by
    cases source <;> rfl
  rcases Scan.value?_part?_call nested hKnown before
    (Text.quoted text).toList rest o with ⟨e, hRead⟩
  rcases Scan.value?_textArgument_quoted text _ rest e with
    ⟨start, o', hArgument⟩
  refine ⟨o', ?_⟩
  rw [hText, hRead, Scan.meaning, Scan.value?_bind, hArgument]
  by_cases hEmpty : text.isEmpty = true
  · rw [if_pos hEmpty, if_pos hEmpty]
    rfl
  · rw [if_neg hEmpty, if_neg hEmpty, Option.bind_some]
    rfl

/- A needle is read again unless it is empty. -/
theorem value?_part?_containsText
    (nested : Cursor → Except Fault (Selector E))
    (source : TextSource)
    (written : String)
    (before : List (Selector E))
    (rest : List Char)
    (o : Nat) :
    ∃ o', Scan.value? (Scan.part? nested before)
        ⟨o, (.containsText source
          (Scan.needle source written) : Selector E).text.toList ++ rest⟩ =
      if (Scan.needle source written).isEmpty then none
      else some (some (.containsText source (Scan.needle source written)),
        ⟨o', rest⟩) := by
  rcases value?_part?_contains nested source (Scan.needle source written)
    before rest o with ⟨o', hRead⟩
  rw [Scan.needle_needle] at hRead
  exact ⟨o', hRead⟩

/- A legible pattern is read again. -/
theorem value?_part?_matchesText
    (nested : Cursor → Except Fault (Selector E))
    {source : TextSource}
    {p : Pattern E}
    (hSource : p.source ≠ "")
    (hCase : p.ignoreCase = source.isNormalized)
    (hLegible : isPatternText '(' ')' p.source.toList = true)
    (before : List (Selector E))
    (rest : List Char)
    (o : Nat) :
    ∃ o', Scan.value? (Scan.part? nested before)
        ⟨o, (Selector.matchesText source p).text.toList ++ rest⟩ =
      some (some (.matchesText source p), ⟨o', rest⟩) := by
  have hText :
      (Selector.matchesText source p).text.toList ++ rest =
        ':' :: (("matches" ++ source.ending).toList ++
          ('(' :: p.source.toList ++ ')' :: rest)) := by
    simp [text]
  have hKnown :
      pseudoClass? E (Text.asciiLowerString ("matches" ++ source.ending)) =
        some (.matchesText source) := by
    cases source <;> rfl
  rcases Scan.value?_part?_call nested hKnown before
    p.source.toList rest o with ⟨e, hRead⟩
  rcases Scan.value?_textArgument_pattern hLegible hSource _ rest e with
    ⟨start, o', hArgument⟩
  refine ⟨o', ?_⟩
  rw [hText, hRead, Scan.meaning, Scan.value?_bind, hArgument,
    Option.bind_some]
  simp only [Scan.value?_bind, ← hCase, Scan.value?_pattern]
  rfl

/-
  A legible part is read again wherever its text stands, if
  the selectors within it are.
-/
theorem IsPart.value?_part?
    {P : Selector E → Prop}
    {before : List (Selector E)}
    {part : Selector E}
    (hPart : IsPart P before part)
    (hLegible : part.isLegible = true)
    (hInner :
      ∀ inner, P inner → inner.isLegible = true →
        inner.text.toList.length < part.text.toList.length →
          inner.text.toList ≠ [] ∧ ReadsBack nested inner)
    {rest : List Char}
    (hRest : endsPart rest = true)
    (o : Nat) :
    ∃ o', Scan.value? (Scan.part? nested before)
        ⟨o, part.text.toList ++ rest⟩ =
      if part.isFilled then some (some part, ⟨o', rest⟩) else none := by
  have hPlain :
      ∀ (name : String) {s : Selector E},
        pseudoClass? E (Text.asciiLowerString name) = some (.plain s) →
          s.text = ":" ++ name → s.isFilled = true →
            ∃ o', Scan.value? (Scan.part? nested before)
                ⟨o, s.text.toList ++ rest⟩ =
              if s.isFilled then some (some s, ⟨o', rest⟩) else none := by
    intro name s hKnown hText hFilled
    rcases Scan.value?_part?_plain nested hKnown hRest before o
      with ⟨o', hRead⟩
    have hWhole : s.text.toList ++ rest = ':' :: (name.toList ++ rest) := by
      simp [hText]
    refine ⟨o', ?_⟩
    rw [if_pos hFilled, hWhole, hRead]
  cases hPart with
  | universal =>
      rcases Scan.value?_starPart (E := E) hRest o with ⟨o', hRead⟩
      refine ⟨o', ?_⟩
      have hText :
          (.universal : Selector E).text.toList ++ rest = '*' :: rest := by
        simp [text]
      rw [hText, Scan.value?_part?]
      simp [Scan.partStart?, Scan.partWith, hRead, isFilled, everyPart,
        isFilledPart]
  | tag hSmall =>
      rcases value?_part?_tag hSmall hLegible hRest o with ⟨o', hRead⟩
      exact ⟨o', hRead⟩
  | @id _ value hValue =>
      rcases Scan.value?_markedName hLegible hRest
        (Selector.id (E := E)) '#' o with ⟨o', hRead⟩
      refine ⟨o', ?_⟩
      have hText :
          (.id value : Selector E).text.toList ++ rest =
            '#' :: (value.toList ++ rest) := by
        simp [text]
      rw [hText, Scan.value?_part?]
      simp [Scan.partStart?, Scan.partWith, hRead, isFilled, everyPart,
        isFilledPart]
  | @className _ name hName =>
      rcases Scan.value?_markedName hLegible hRest
        (Selector.className (E := E)) '.' o with ⟨o', hRead⟩
      refine ⟨o', ?_⟩
      have hText :
          (.className name : Selector E).text.toList ++ rest =
            '.' :: (name.toList ++ rest) := by
        simp [text]
      rw [hText, Scan.value?_part?]
      simp [Scan.partStart?, Scan.partWith, hRead, isFilled, everyPart,
        isFilledPart]
  | @attr _ name test hSmall hTest =>
      simp only [isLegible, everyPart, isLegiblePart, Bool.and_eq_true]
        at hLegible
      rcases Scan.value?_attributeTest hSmall hTest hLegible.1 hLegible.2
        rest o with ⟨o', hRead⟩
      refine ⟨o', ?_⟩
      have hText :
          (Selector.attr name test).text.toList ++ rest =
            '[' :: (name.toList ++ test.text.toList ++ ']' :: rest) := by
        simp [text]
      rw [hText] at hRead ⊢
      rw [Scan.value?_part?_bracket, hRead]
      rfl
  | @attrStarting _ start hSmall =>
      rcases Scan.value?_attributeTest_start hLegible hSmall rest o with
        ⟨o', hRead⟩
      refine ⟨o', ?_⟩
      have hText :
          (.attrStarting start : Selector E).text.toList ++ rest =
            '[' :: ('^' :: start.toList ++ ']' :: rest) := by
        simp [text]
      rw [hText] at hRead ⊢
      rw [Scan.value?_part?_bracket, hRead]
      rfl
  | root => exact hPlain "root" rfl rfl rfl
  | scope => exact hPlain "scope" rfl rfl rfl
  | empty => exact hPlain "empty" rfl rfl rfl
  | onlyChild => exact hPlain "only-child" rfl rfl rfl
  | onlyOfType => exact hPlain "only-of-type" rfl rfl rfl
  | @index _ test n hFits =>
      rcases value?_part?_index nested test hFits before rest o
        with ⟨o', hRead⟩
      refine ⟨o', ?_⟩
      have hFilled :
          (Selector.index test n (Scan.indexCandidate before)).isFilled =
            true := by
        simp [isFilled, everyPart]
      rw [if_pos hFilled, ← hRead]
      simp [text]
  | @position _ kind formula =>
      rcases value?_part?_position nested kind formula before
        hRest o with ⟨o', hRead⟩
      exact ⟨o', hRead⟩
  | @nested _ nesting inner hWithin =>
      rw [isLegible, everyPart_wrap, Bool.and_eq_true] at hLegible
      have hArgument : isArgument inner.text.toList = true := by
        cases nesting <;> exact hLegible.1
      have hShorter :
          inner.text.toList.length <
            (nesting.wrap inner).text.toList.length := by
        cases nesting <;> simp [Nesting.wrap, text] <;> omega
      have hFilled : (nesting.wrap inner).isFilled = inner.isFilled := by
        rw [isFilled, everyPart_wrap, ← isFilled]
        cases nesting <;> rfl
      rcases hInner inner hWithin hLegible.2 hShorter with ⟨hSome, hReads⟩
      rw [hFilled]
      exact value?_part?_nested nesting hArgument hSome hReads before rest o
  | @containsText _ source written =>
      rcases value?_part?_containsText nested source written
        before rest o with ⟨o', hRead⟩
      refine ⟨o', ?_⟩
      have hFilled :
          (.containsText source
              (Scan.needle source written) : Selector E).isFilled =
            !(Scan.needle source written).isEmpty :=
        rfl
      rw [hRead, hFilled]
      by_cases hEmpty : (Scan.needle source written).isEmpty = true
      · simp [hEmpty]
      · simp [hEmpty]
  | @matchesText _ source p hSource hCase =>
      rcases value?_part?_matchesText nested hSource hCase
        hLegible before rest o with ⟨o', hRead⟩
      exact ⟨o', hRead⟩

end Selector

end TreeQuery
