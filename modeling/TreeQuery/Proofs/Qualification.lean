import TreeQuery.Pattern.Standard
import TreeQuery.Proofs.Reading.Trail
import TreeQuery.Proofs.Reading.Window
import TreeQuery.Proofs.Tree.Name
import TreeQuery.Selector.Matching

/-
  Tests of qualified names.

  A qualifier and a local part can be asked for with a bar
  between them, as one name with a colon between them, and each
  on its own.  However many colons the name of an element has,
  these tests agree.  Any name can be asked for in a query,
  since escapes write what could not stand in a name.

  Key definitions include:
    * `Text.escapeName`
    * `TagSelector.query`

  Main statements:
    * `Text.writesName_escapeName`
    * `Selector.read_query`
    * `Selector.qualified_names_match_alike`
-/

namespace TreeQuery

variable {E : Engine}

------------------------------------------------------------
-- Escaped Names
------------------------------------------------------------

namespace Text

/-
  The character does not need an escape in a name.  Blanks
  that are no ASCII characters may stand in a name, but at the
  start of a query they would be skipped.
-/
def isPlainInName (c : Char) : Bool :=
  isIdentifierChar c && !isBlank c

/- A character of a name, with an escape if it needs one. -/
def escapeInName (c : Char) : List Char :=
  if isPlainInName c then [c] else ['\\', c]

/- A name with escapes, so that it can stand in a query. -/
def escapeName (name : String) : String :=
  String.ofList (name.toList.flatMap escapeInName)

/- What needs an escape is not taken for a code point. -/
theorem not_isHexDigit_of_not_isPlainInName
    {c : Char}
    (h : isPlainInName c = false) :
    isHexDigit c = false := by
  rw [Bool.eq_false_iff]
  intro hDigit
  have hAll :
      (List.range 128).all fun n =>
        isPlainInName (Char.ofNat n) || !isHexDigit (Char.ofNat n) := by
    decide +kernel
  have hCase :=
    forall_ascii (p := fun c => isPlainInName c || !isHexDigit c) hAll
      (ascii_of_isHexDigit hDigit)
  simp [h, hDigit] at hCase

/- A name with escapes is read up to the character that ends it. -/
theorem readIdentifier?_escapeInName
    {rest : List Char}
    (hRest : endsName rest = true)
    (name : List Char) :
    readIdentifier? (name.flatMap escapeInName ++ rest) =
      some (name, rest) := by
  induction name with
  | nil =>
      have hNone : ∀ c ∈ [], isIdentifierChar c = true := by simp
      exact readIdentifier?_append hNone hRest
  | cons c name ih =>
      rw [List.flatMap_cons, List.append_assoc, escapeInName]
      by_cases hPlain : isPlainInName c = true
      · have hChar : isIdentifierChar c = true := by
          simp only [isPlainInName, Bool.and_eq_true] at hPlain
          exact hPlain.1
        rw [if_pos hPlain, List.singleton_append,
          readIdentifier?_cons hChar, ih]
        rfl
      · have hNotHex :=
          not_isHexDigit_of_not_isPlainInName (Bool.eq_false_iff.2 hPlain)
        rw [if_neg hPlain, List.cons_append, List.singleton_append,
          readIdentifier?_escape (readEscape?_of_not_hex hNotHex _), ih]
        rfl

/- Every name can be written with escapes. -/
theorem writesName_escapeName
    {name : String}
    (h : name ≠ "") :
    WritesName (escapeName name).toList name.toList := by
  refine ⟨by simpa using h, fun rest hRest => ?_⟩
  rw [escapeName, String.toList_ofList]
  exact readIdentifier?_escapeInName hRest name.toList

/- A name with escapes begins with no blank and no sign. -/
theorem exists_cons_escapeName
    {name : String}
    (h : name ≠ "") :
    ∃ x xs, (escapeName name).toList = x :: xs ∧
      beginsCompound x = true := by
  rw [escapeName, String.toList_ofList]
  cases hName : name.toList with
  | nil => exact absurd (String.toList_eq_nil_iff.1 hName) h
  | cons c cs =>
      rw [List.flatMap_cons, escapeInName]
      by_cases hPlain : isPlainInName c = true
      · refine ⟨c, cs.flatMap escapeInName, by simp [hPlain], ?_⟩
        simp only [isPlainInName, Bool.and_eq_true] at hPlain
        have hOther := not_special_of_isIdentifierChar hPlain.1
        simp only [List.mem_cons, not_or] at hOther
        simp [beginsCompound, hPlain.2, hOther]
      · exact ⟨'\\', c :: cs.flatMap escapeInName, by simp [hPlain],
          by decide⟩

end Text

------------------------------------------------------------
-- Queries
------------------------------------------------------------

/- A name test as it is written in a query, with escapes. -/
def TagSelector.query (test : TagSelector) : String :=
  (test.map Text.escapeName).text

namespace Selector

/- A query of a name test begins as a compound does. -/
theorem exists_cons_query
    {test : TagSelector}
    (hNames : ∀ name ∈ test.names, name ≠ "") :
    ∃ x xs, test.query.toList = x :: xs ∧ beginsCompound x = true := by
  have hFirst :
      ∀ name ∈ test.names.head?, ∃ x xs,
        (Text.escapeName name).toList = x :: xs ∧
          beginsCompound x = true :=
    fun name hHead =>
      Text.exists_cons_escapeName
        (hNames name (List.mem_of_mem_head? hHead))
  rcases TagSelector.head_map hFirst with
    ⟨x, xs, hText, ⟨_, rfl⟩ | hBegins⟩
  · exact ⟨'*', xs, hText, by decide⟩
  · exact ⟨x, xs, hText, hBegins⟩

/- Names that are asked for are read in small letters. -/
theorem read_query
    {test : TagSelector}
    (hNames : ∀ name ∈ test.names, name ≠ "") :
    read E test.query = .ok (.tag (test.map Text.asciiLowerString)) := by
  rcases exists_cons_query hNames with ⟨x, xs, hQuery, hBegins⟩
  refine read_of_part? hQuery hBegins ?_
  have hWritten :
      ∀ name ∈ test.names,
        WritesName (Text.escapeName name).toList name.toList :=
    fun name hMem => Text.writesName_escapeName (hNames name hMem)
  have hEnd : endsPart [] = true := rfl
  rcases value?_part?_map hWritten hEnd 0 with ⟨e, hPart⟩
  rw [List.append_nil, ← TagSelector.query, hQuery] at hPart
  exact ⟨e, hPart⟩

example : (TagSelector.name "svg:Rect").query = "svg\\:Rect" := by decide

/- Small letters ask for the same names. -/
theorem accepts_tag_map
    (test : TagSelector)
    (ctx : Context)
    (n : Node) :
    (tag (test.map Text.asciiLowerString) : Selector E).accepts ctx n =
      (tag test : Selector E).accepts ctx n := by
  have hSame :
      ∀ (cs : List Char) (s : String),
        Text.equalIgnoringCase cs (Text.asciiLowerString s).toList =
          Text.equalIgnoringCase cs s.toList := by
    intro cs s
    simp [Text.equalIgnoringCase, Text.asciiLowerString,
      Text.asciiLower_idem]
  cases test with
  | name s =>
      simp only [accepts, TagSelector.map, TagSelector.accepts,
        Name.isWritten, hSame]
  | anyNamespace l =>
      simp only [accepts, TagSelector.map, TagSelector.accepts,
        Name.hasLocalPart, hSame]
  | namespaceOnly q =>
      simp only [accepts, TagSelector.map, TagSelector.accepts,
        Name.hasQualifier, hSame]
  | qualified q l =>
      simp only [accepts, TagSelector.map, TagSelector.accepts,
        Name.hasQualifier, Name.hasLocalPart, hSame]

/- So a query asks for the names that are written in it. -/
theorem exists_read_query
    {test : TagSelector}
    (hNames : ∀ name ∈ test.names, name ≠ "") :
    ∃ s, read E test.query = .ok s ∧
      ∀ ctx n,
        s.accepts ctx n = (tag test : Selector E).accepts ctx n :=
  ⟨_, read_query hNames, accepts_tag_map test⟩

------------------------------------------------------------
-- Elements
------------------------------------------------------------

/-
  The name of an element is divided so that it is written as
  before.  For a qualifier without a colon and a local part,
  the query with a bar between them, the query with an escaped
  colon between them, and the two queries for one of them alone
  can all be read.  They ask the same of an element, which is
  that its name is the one with the colon, up to case.
-/
theorem qualified_names_match_alike
    (E : Engine)
    {q l : String}
    (hQualifier : q ≠ "")
    (hColon : ':' ∉ q.toList)
    (hLocal : l ≠ "") :
    (∀ s, (Name.parse s).text = s) ∧
      (∀ test ∈ [TagSelector.qualified q l, .name (q ++ ":" ++ l),
          .namespaceOnly q, .anyNamespace l],
        ∃ s, read E test.query = .ok s ∧
          ∀ ctx n,
            s.accepts ctx n = (tag test : Selector E).accepts ctx n) ∧
      ∀ (ctx : Context) (n : Node) (s : String),
        ctx.tree.isElement n = true →
          ctx.tree.name? n = some (Name.parse s) →
            ((tag (.qualified q l) : Selector E).accepts ctx n = true ↔
              (tag (.name (q ++ ":" ++ l)) : Selector E).accepts ctx n =
                true) ∧
            ((tag (.name (q ++ ":" ++ l)) : Selector E).accepts ctx n =
                true ↔
              (tag (.namespaceOnly q) : Selector E).accepts ctx n = true ∧
                (tag (.anyNamespace l) : Selector E).accepts ctx n =
                  true) ∧
            ((tag (.name (q ++ ":" ++ l)) : Selector E).accepts ctx n =
                true ↔
              Text.asciiLower s.toList =
                Text.asciiLower (q ++ ":" ++ l).toList) := by
  refine ⟨Name.text_parse, ?_, ?_⟩
  · have hWhole : q ++ ":" ++ l ≠ "" := by
      rw [← String.toList_inj.ne]
      simp
    intro test hMem
    refine exists_read_query fun name hName => ?_
    simp only [List.mem_cons, List.not_mem_nil, or_false] at hMem
    rcases hMem with rfl | rfl | rfl | rfl
    · rcases List.mem_pair.1 hName with rfl | rfl
      · exact hQualifier
      · exact hLocal
    · rwa [List.mem_singleton.1 hName]
    · rwa [List.mem_singleton.1 hName]
    · rwa [List.mem_singleton.1 hName]
  · intro ctx n s hElement hName
    have hBoth := Name.qualifies_parse_iff (s := s) hQualifier hColon hLocal
    have hText : (q ++ ":" ++ l).toList = q.toList ++ ':' :: l.toList := by
      simp
    have hWritten :
        (Name.parse s).isWritten (q ++ ":" ++ l) = true ↔
          Text.asciiLower s.toList =
            Text.asciiLower (q ++ ":" ++ l).toList :=
      Name.isWritten_parse_iff
    rw [← hText, ← hWritten] at hBoth
    simp only [accepts, hElement, TagSelector.accepts, hName,
      Option.any_some, Bool.true_and, Bool.and_eq_true]
    exact ⟨hBoth, hBoth.symm, hWritten⟩

/- A name with two colons is divided at the first of them. -/
theorem qualified_names_match_alike_two_colons :
    (Name.parse "SVG:a:b").text = "SVG:a:b" ∧
      (∃ s, read .standard "svg|A\\:B" = .ok s ∧
        s.accepts ⟨.element (Name.parse "SVG:a:b") [] [], .root, {}⟩ .root =
          true) ∧
      (tag (.name "svg:A:B") : Selector .standard).accepts
          ⟨.element (Name.parse "SVG:a:b") [] [], .root, {}⟩ .root = true ∧
        (tag (.namespaceOnly "svg") : Selector .standard).accepts
            ⟨.element (Name.parse "SVG:a:b") [] [], .root, {}⟩ .root =
          true ∧
          (tag (.anyNamespace "A:B") : Selector .standard).accepts
              ⟨.element (Name.parse "SVG:a:b") [] [], .root, {}⟩ .root =
            true := by
  have hElement :
      (Tree.element (Name.parse "SVG:a:b") [] []).isElement .root =
        true := by
    decide
  have hName :
      (Tree.element (Name.parse "SVG:a:b") [] []).name? .root =
        some (Name.parse "SVG:a:b") :=
    rfl
  rcases qualified_names_match_alike .standard (q := "svg") (l := "A:B")
    (by decide) (by decide) (by decide) with ⟨hText, hRead, hAlike⟩
  rcases hAlike ⟨.element (Name.parse "SVG:a:b") [] [], .root, {}⟩ .root
    "SVG:a:b" hElement hName with ⟨hBar, hParts, hWritten⟩
  have hColon := hWritten.2 (by decide)
  rcases hRead (.qualified "svg" "A:B") (by simp) with ⟨s, hQuery, hSame⟩
  refine ⟨hText _, ⟨s, hQuery, ?_⟩, hColon, hParts.1 hColon⟩
  rw [hSame]
  exact hBar.2 hColon

end Selector

end TreeQuery
