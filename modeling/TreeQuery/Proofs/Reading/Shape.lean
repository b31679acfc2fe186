import TreeQuery.Proofs.Reading.Value
import TreeQuery.Proofs.Text.Ascii

/-
  The shapes of selectors that are read.

  Only some selectors can be the value of a reader: names are
  in small letters, the candidates of an index repeat the
  parts before it, needles are normalised.  The shapes follow
  the readers: parts, compounds, chains and groups.

  Key definitions include:
    * `Selector.IsPart`
    * `Selector.ArePartsAfter`
    * `Selector.IsChain`
    * `Selector.IsGroup`
    * `Selector.IsWritten`
    * `Selector.isSimple`

  Main statement:
    * `Selector.IsWritten.induction`
-/

namespace TreeQuery

variable {E : Engine}

------------------------------------------------------------
-- Shapes
------------------------------------------------------------

/- A name that is not empty and has no capitals. -/
def IsSmallName (name : String) : Prop :=
  name ≠ "" ∧ Text.asciiLowerString name = name

/- The names of a name test are small names. -/
def TagSelector.IsSmall : TagSelector → Prop
| .name s => IsSmallName s
| .anyNamespace l => IsSmallName l
| .namespaceOnly q => IsSmallName q
| .qualified q l => IsSmallName q ∧ IsSmallName l

/- The value of an attribute test may be empty only where it makes sense. -/
def AttributeTest.IsMeaningful : AttributeTest E → Prop
| .present => True
| .compare c value =>
    value = "" → (AttributeOperator.compare c).allowsEmpty = true
| .matchesPattern p => p.source ≠ "" ∧ p.ignoreCase = false

namespace Selector

variable {P : Selector E → Prop}

/-
  Parts that are read after others.  Selectors within a part
  satisfy `P`.
-/
inductive IsPart (P : Selector E → Prop) :
    List (Selector E) → Selector E → Prop
| universal : IsPart P [] .universal
| tag {test : TagSelector} (hTest : test.IsSmall) :
    IsPart P [] (.tag test)
| id {before : List (Selector E)} {value : String} (hValue : value ≠ "") :
    IsPart P before (.id value)
| className {before : List (Selector E)} {name : String} (hName : name ≠ "") :
    IsPart P before (.className name)
| attr {before : List (Selector E)} {name : String} {test : AttributeTest E}
    (hName : IsSmallName name) (hTest : test.IsMeaningful) :
    IsPart P before (.attr name test)
| attrStarting {before : List (Selector E)} {start : String}
    (hStart : IsSmallName start) :
    IsPart P before (.attrStarting start)
| root {before : List (Selector E)} : IsPart P before .root
| scope {before : List (Selector E)} : IsPart P before .scope
| empty {before : List (Selector E)} : IsPart P before .empty
| onlyChild {before : List (Selector E)} : IsPart P before .onlyChild
| onlyOfType {before : List (Selector E)} : IsPart P before .onlyOfType
| index {before : List (Selector E)} {test : IndexTest} {n : Nat}
    (hFits : n < UInt64.size) :
    IsPart P before (.index test n (Scan.indexCandidate before))
| position {before : List (Selector E)} {kind : Position}
    {formula : Formula} :
    IsPart P before (.position kind formula)
| nested {before : List (Selector E)} {nesting : Nesting} {inner : Selector E}
    (hInner : P inner) :
    IsPart P before (nesting.wrap inner)
| containsText {before : List (Selector E)} {source : TextSource}
    {text : String} :
    IsPart P before (.containsText source (Scan.needle source text))
| matchesText {before : List (Selector E)} {source : TextSource}
    {pattern : Pattern E}
    (hSource : pattern.source ≠ "")
    (hCase : pattern.ignoreCase = source.isNormalized) :
    IsPart P before (.matchesText source pattern)

/- Parts that are read one after the other, after others. -/
inductive ArePartsAfter (P : Selector E → Prop) :
    List (Selector E) → List (Selector E) → Prop
| nil {before : List (Selector E)} : ArePartsAfter P before []
| cons {before parts : List (Selector E)} {part : Selector E}
    (hPart : IsPart P before part)
    (hRest : ArePartsAfter P (before ++ [part]) parts) :
    ArePartsAfter P before (part :: parts)

/- A compound of one part at least. -/
def IsCompound (P : Selector E → Prop) (s : Selector E) : Prop :=
  ∃ parts, parts ≠ [] ∧ ArePartsAfter P [] parts ∧ s = ofParts parts

/- Chains of compounds. -/
inductive IsChain (P : Selector E → Prop) : Selector E → Prop
| compound {s : Selector E} (hCompound : IsCompound P s) : IsChain P s
| related {left right : Selector E} {c : Combinator}
    (hLeft : IsChain P left)
    (hRight : IsCompound P right) :
    IsChain P (left.relate c right)

/- Groups of one chain at least. -/
def IsGroup (P : Selector E → Prop) (s : Selector E) : Prop :=
  ∃ branches,
    branches ≠ [] ∧ (∀ b ∈ branches, IsChain P b) ∧
      s = ofBranches branches

/- Some part of a query writes the selector. -/
def IsWritten (s : Selector E) : Prop :=
  ∃ part, Scan.readPart E part = .ok s

------------------------------------------------------------
-- Simple Selectors
------------------------------------------------------------

/- A selector that is no combination of others on its own node. -/
def isSimple : Selector E → Bool
| .compound _ | .group _ | .combine .. => false
| _ => true

/- So are parts. -/
theorem IsPart.isSimple
    {P : Selector E → Prop}
    {before : List (Selector E)}
    {part : Selector E}
    (h : IsPart P before part) :
    part.isSimple = true := by
  cases h with
  | @nested _ nesting inner hInner =>
      cases nesting with
      | has => rfl
      | not => rfl
      | is => rfl
  | _ => rfl

theorem ArePartsAfter.isSimple
    {P : Selector E → Prop}
    {before parts : List (Selector E)}
    (h : ArePartsAfter P before parts) :
    ∀ part ∈ parts, part.isSimple = true := by
  induction h with
  | nil => simp
  | cons hPart hRest ih =>
      intro part hMem
      rcases List.mem_cons.1 hMem with rfl | hMem
      · exact hPart.isSimple
      · exact ih part hMem

/- A chain is no group. -/
theorem IsChain.ne_group
    {s : Selector E}
    (h : IsChain P s)
    (branches : List (Selector E)) :
    s ≠ .group branches := by
  rintro rfl
  generalize hGroup : Selector.group branches = t at h
  cases h with
  | compound hCompound =>
      rcases hCompound with ⟨parts, hSome, hParts, hSame⟩
      match parts with
      | [] => exact hSome rfl
      | [part] =>
          have hSimple := hParts.isSimple part (by simp)
          rw [ofParts] at hSame
          simp [← hSame, ← hGroup, Selector.isSimple] at hSimple
      | first :: second :: rest =>
          rw [hSame] at hGroup
          cases hGroup
  | related hLeft hRight => cases hGroup

end Selector

namespace Scan

open Selector

variable {P : Selector E → Prop} {c d : Cursor}

------------------------------------------------------------
-- Names
------------------------------------------------------------

theorem shape_identifier
    {name : String}
    (h : value? identifier c = some (name, d)) :
    name ≠ "" := by
  rw [value?_eq_some_iff] at h
  unfold identifier at h
  split at h
  · simp at h
  · next chars rest hSome hRead =>
      simp only [EStateM.Result.ok.injEq] at h
      rcases h with ⟨rfl, _⟩
      intro hEmpty
      exact hSome (by simpa using congrArg String.toList hEmpty)
  · simp at h

theorem isSmallName_asciiLowerString
    {name : String}
    (h : name ≠ "") :
    IsSmallName (Text.asciiLowerString name) := by
  refine ⟨?_, Text.asciiLowerString_idem name⟩
  intro hEmpty
  apply h
  simpa [Text.asciiLowerString, Text.asciiLower] using hEmpty

theorem shape_tagName
    {name : String}
    (h : value? tagName c = some (name, d)) :
    IsSmallName name := by
  simp only [tagName, value?_map, Option.map_eq_some_iff, Prod.exists,
    Prod.mk.injEq] at h
  rcases h with ⟨written, e, hRead, rfl, _⟩
  exact isSmallName_asciiLowerString (shape_identifier hRead)

------------------------------------------------------------
-- Parts
------------------------------------------------------------

theorem shape_afterStar
    {s : Selector E}
    (h : value? (afterStar E) c = some (s, d)) :
    IsPart P [] s := by
  rcases value?_bind_eq_some_iff.1 h with ⟨bar, e, _, hBar⟩
  cases bar with
  | false =>
      simp only [Bool.false_eq_true, ↓reduceIte, value?_pure,
        Option.some.injEq, Prod.mk.injEq] at hBar
      rw [← hBar.1]
      exact .universal
  | true =>
      rcases value?_bind_eq_some_iff.1 hBar with ⟨star, f, _, hStar⟩
      cases star with
      | true =>
          simp only [↓reduceIte, value?_pure, Option.some.injEq,
            Prod.mk.injEq] at hStar
          rw [← hStar.1]
          exact .universal
      | false =>
          rcases value?_bind_eq_some_iff.1 hStar with
            ⟨name, g, hName, hTag⟩
          simp only [value?_pure, Option.some.injEq,
            Prod.mk.injEq] at hTag
          rw [← hTag.1]
          exact .tag (shape_tagName hName)

theorem shape_afterName
    {name : String}
    {s : Selector E}
    (hName : IsSmallName name)
    (h : value? (afterName E name) c = some (s, d)) :
    IsPart P [] s := by
  rcases value?_bind_eq_some_iff.1 h with ⟨bar, e, _, hBar⟩
  cases bar with
  | false =>
      simp only [Bool.false_eq_true, ↓reduceIte, value?_pure,
        Option.some.injEq, Prod.mk.injEq] at hBar
      rw [← hBar.1]
      exact .tag hName
  | true =>
      rcases value?_bind_eq_some_iff.1 hBar with ⟨star, f, _, hStar⟩
      cases star with
      | true =>
          simp only [↓reduceIte, value?_pure, Option.some.injEq,
            Prod.mk.injEq] at hStar
          rw [← hStar.1]
          exact .tag hName
      | false =>
          rcases value?_bind_eq_some_iff.1 hStar with
            ⟨localPart, g, hLocal, hTag⟩
          simp only [value?_pure, Option.some.injEq,
            Prod.mk.injEq] at hTag
          rw [← hTag.1]
          exact .tag ⟨hName, shape_tagName hLocal⟩

theorem shape_markedName
    {make : String → Selector E}
    {s : Selector E}
    (h : value? (markedName make) c = some (s, d)) :
    ∃ name, name ≠ "" ∧ s = make name := by
  rcases value?_bind_eq_some_iff.1 h with ⟨_, e, _, hName⟩
  rcases value?_bind_eq_some_iff.1 hName with ⟨name, f, hRead, hMake⟩
  simp only [value?_pure, Option.some.injEq, Prod.mk.injEq] at hMake
  exact ⟨name, shape_identifier hRead, hMake.1.symm⟩

------------------------------------------------------------
-- Attribute Tests
------------------------------------------------------------

theorem nameParts_ne_empty
    {name : String}
    (hName : name ≠ "")
    {whole : String}
    (h : value? (nameParts name) c = some (whole, d)) :
    whole ≠ "" := by
  have hParts : nameParts name c = .ok whole d := value?_eq_some_iff.1 h
  clear h
  fun_induction nameParts name c with
  | case1 name c x hPeek hPeek' hChar part e hRead _ _ ih =>
      apply ih _ hParts
      simp
  | case2 name c x hPeek hPeek' hChar fault e hRead => simp at hParts
  | case3 name c x hPeek hPeek' hChar =>
      cases hParts
      exact hName
  | case4 name c hOther =>
      cases hParts
      exact hName

/- A pattern keeps its text and its regard to case. -/
theorem shape_pattern
    {o : Nat}
    {ignoreCase : Bool}
    {source : String}
    {p : Pattern E}
    (h : value? (pattern E o ignoreCase source) c = some (p, d)) :
    p.source = source ∧ p.ignoreCase = ignoreCase := by
  unfold pattern at h
  split at h
  · next q hRead =>
      simp only [value?_pure, Option.some.injEq, Prod.mk.injEq] at h
      rw [← h.1]
      unfold Pattern.read? at hRead
      split at hRead
      · simp only [Option.some.injEq] at hRead
        rw [← hRead]
        exact ⟨rfl, rfl⟩
      · simp at hRead
  · simp at h

theorem shape_operatorAndValue
    {name : String}
    {test : AttributeTest E}
    (h : value? (operatorAndValue E name) c = some (test, d)) :
    test.IsMeaningful := by
  rcases value?_bind_eq_some_iff.1 h with ⟨op?, e, _, hOp⟩
  cases op? with
  | none => simp at hOp
  | some op =>
      rcases value?_bind_eq_some_iff.1 hOp with ⟨_, f, _, hStart⟩
      rcases value?_bind_eq_some_iff.1 hStart with ⟨start, g, _, hValue⟩
      rcases value?_bind_eq_some_iff.1 hValue with ⟨value, k, _, hTest⟩
      by_cases hMissing : (value.isEmpty && !op.allowsEmpty) = true
      · simp [hMissing] at hTest
      · rw [if_neg hMissing] at hTest
        cases op with
        | compare comparison =>
            simp only [valueTest, value?_pure, Option.some.injEq,
              Prod.mk.injEq] at hTest
            rw [← hTest.1]
            intro hEmpty
            simpa [hEmpty] using hMissing
        | matchesPattern =>
            simp only [valueTest, value?_map, Option.map_eq_some_iff,
              Prod.exists, Prod.mk.injEq] at hTest
            rcases hTest with ⟨p, l, hPattern, rfl, _⟩
            rcases shape_pattern hPattern with ⟨hSource, hCase⟩
            refine ⟨?_, hCase⟩
            intro hEmpty
            rw [hSource] at hEmpty
            simp [hEmpty, AttributeOperator.allowsEmpty] at hMissing

theorem shape_attributeTest
    {before : List (Selector E)}
    {s : Selector E}
    (h : value? (attributeTest E) c = some (s, d)) :
    IsPart P before s := by
  rcases value?_bind_eq_some_iff.1 h with ⟨part, e, _, hWithin⟩
  simp only [value?_within, Option.map_eq_some_iff, Prod.exists,
    Prod.mk.injEq] at hWithin
  rcases hWithin with ⟨_, f, hPart, rfl, _⟩
  rcases value?_bind_eq_some_iff.1 hPart with ⟨_, g, _, hSign⟩
  rcases value?_bind_eq_some_iff.1 hSign with ⟨caret, k, _, hTest⟩
  cases caret with
  | true =>
      rcases value?_bind_eq_some_iff.1 hTest with ⟨start, l, hStart, hRest⟩
      rcases value?_bind_eq_some_iff.1 hRest with ⟨_, m, _, hRest⟩
      rcases value?_bind_eq_some_iff.1 hRest with ⟨_, o, _, hMake⟩
      simp only [value?_pure, Option.some.injEq, Prod.mk.injEq] at hMake
      rw [← hMake.1]
      exact .attrStarting
        (isSmallName_asciiLowerString (shape_identifier hStart))
  | false =>
      rcases value?_bind_eq_some_iff.1 hTest with ⟨name, l, hName, hRest⟩
      rcases value?_bind_eq_some_iff.1 hName with ⟨first, m, hFirst, hParts⟩
      have hSome := nameParts_ne_empty (shape_identifier hFirst) hParts
      have hSmall := isSmallName_asciiLowerString hSome
      rcases value?_bind_eq_some_iff.1 hRest with ⟨_, o, _, hRest⟩
      rcases value?_bind_eq_some_iff.1 hRest with ⟨atEnd, q, _, hEnd⟩
      cases atEnd with
      | true =>
          simp only [↓reduceIte, value?_pure, Option.some.injEq,
            Prod.mk.injEq] at hEnd
          rw [← hEnd.1]
          exact .attr hSmall trivial
      | false =>
          rcases value?_bind_eq_some_iff.1 hEnd with ⟨test, r, hOp, hMake⟩
          simp only [value?_pure, Option.some.injEq, Prod.mk.injEq] at hMake
          rw [← hMake.1]
          exact .attr hSmall (shape_operatorAndValue hOp)

------------------------------------------------------------
-- Pseudo-Classes
------------------------------------------------------------

variable {nested : Cursor → Except Fault (Selector E)}

/- A name has the meaning that the table gives it. -/
theorem mem_pseudoClasses
    {name : String}
    {known : PseudoClass E}
    (h : pseudoClass? E name = some known) :
    (name, known) ∈ pseudoClasses E := by
  rw [pseudoClass?, List.lookup_eq_some_iff] at h
  rcases h with ⟨before, after, hTable, _⟩
  rw [hTable]
  simp

/- The pseudo-classes without an argument. -/
theorem plain_cases
    {name : String}
    {s : Selector E}
    (h : pseudoClass? E name = some (.plain s)) :
    name = "root" ∧ s = .root ∨
      name = "scope" ∧ s = .scope ∨
      name = "empty" ∧ s = .empty ∨
      name = "first-child" ∧ s = .position .child .first ∨
      name = "last-child" ∧ s = .position .lastChild .first ∨
      name = "first-of-type" ∧ s = .position .ofType .first ∨
      name = "last-of-type" ∧ s = .position .lastOfType .first ∨
      name = "only-child" ∧ s = .onlyChild ∨
      name = "only-of-type" ∧ s = .onlyOfType := by
  have hTable := mem_pseudoClasses h
  simpa only [pseudoClasses, List.mem_cons, Prod.mk.injEq,
    PseudoClass.plain.injEq, reduceCtorEq, and_false, List.not_mem_nil,
    or_false] using hTable

/- They are parts. -/
theorem shape_plain
    {name : String}
    {s : Selector E}
    (before : List (Selector E))
    (h : pseudoClass? E name = some (.plain s)) :
    IsPart P before s := by
  rcases plain_cases h with
    ⟨_, rfl⟩ | ⟨_, rfl⟩ | ⟨_, rfl⟩ | ⟨_, rfl⟩ | ⟨_, rfl⟩ | ⟨_, rfl⟩ |
      ⟨_, rfl⟩ | ⟨_, rfl⟩ | ⟨_, rfl⟩
  · exact .root
  · exact .scope
  · exact .empty
  · exact .position
  · exact .position
  · exact .position
  · exact .position
  · exact .onlyChild
  · exact .onlyOfType

theorem shape_indexArgument
    {name : String}
    {n : Nat}
    (h : value? (indexArgument name) c = some (n, d)) :
    n < UInt64.size := by
  rcases value?_bind_eq_some_iff.1 h with ⟨part, e, _, hIndex⟩
  split at hIndex
  · next m hRead =>
      simp only [value?_pure, Option.some.injEq, Prod.mk.injEq] at hIndex
      rw [← hIndex.1]
      rw [readIndex?, Option.filter_eq_some_iff] at hRead
      exact of_decide_eq_true hRead.2
  · simp at hIndex

/- A text argument is empty only where its escapes make it so. -/
theorem shape_textArgument
    {name text : String}
    {o : Nat}
    (h : value? (textArgument name false) c = some ((o, text), d)) :
    text ≠ "" := by
  rcases value?_bind_eq_some_iff.1 h with ⟨part, e, hPart, hText⟩
  rcases value?_bind_eq_some_iff.1 hPart with ⟨whole, f, _, hTrim⟩
  by_cases hBlank : (Text.trim whole.rest).isEmpty = true
  · simp [hBlank] at hTrim
  · rw [if_neg hBlank] at hTrim
    simp only [value?_pure, Option.some.injEq, Prod.mk.injEq] at hTrim
    rw [← hTrim.1] at hText
    split at hText
    · rcases value?_bind_eq_some_iff.1 hText with ⟨quoted, g, _, hSome⟩
      by_cases hEmpty : quoted.isEmpty = true
      · simp [hEmpty] at hSome
      · rw [if_neg hEmpty] at hSome
        simp only [value?_pure, Option.some.injEq, Prod.mk.injEq] at hSome
        rw [← hSome.1.2]
        simpa using hEmpty
    · simp only [Bool.false_eq_true, ↓reduceIte, value?_pure,
        Option.some.injEq, Prod.mk.injEq] at hText
      rw [← hText.1.2]
      simpa [argumentText] using hBlank

theorem shape_meaning
    (hNested : ∀ part s, nested part = .ok s → P s)
    {before : List (Selector E)}
    {name : String}
    {known : PseudoClass E}
    {s : Selector E}
    (hKnown : pseudoClass? E name = some known)
    (h : value? (meaning nested before name known) c = some (s, d)) :
    IsPart P before s := by
  cases known with
  | plain s' =>
      simp only [meaning, value?_pure, Option.some.injEq,
        Prod.mk.injEq] at h
      rw [← h.1]
      exact shape_plain before hKnown
  | index test =>
      rcases value?_bind_eq_some_iff.1 h with ⟨n, e, hIndex, hMake⟩
      simp only [value?_pure, Option.some.injEq, Prod.mk.injEq] at hMake
      rw [← hMake.1]
      exact .index (shape_indexArgument hIndex)
  | position kind =>
      rcases value?_bind_eq_some_iff.1 h with ⟨formula, e, _, hMake⟩
      simp only [value?_pure, Option.some.injEq, Prod.mk.injEq] at hMake
      rw [← hMake.1]
      exact .position
  | nested nesting =>
      rcases value?_bind_eq_some_iff.1 h with ⟨part, e, _, hInner⟩
      rcases value?_bind_eq_some_iff.1 hInner with ⟨inner, f, hRead, hMake⟩
      simp only [value?_pure, Option.some.injEq, Prod.mk.injEq] at hMake
      rw [← hMake.1]
      cases hResult : nested part with
      | error fault => simp [hResult, Except.toOption] at hRead
      | ok inner' =>
          simp only [value?_ofExcept, hResult, Except.toOption,
            Option.map_some, Option.some.injEq, Prod.mk.injEq] at hRead
          rw [← hRead.1]
          exact .nested (hNested part inner' hResult)
  | contains source =>
      rcases value?_bind_eq_some_iff.1 h with ⟨⟨o, text⟩, e, _, hMake⟩
      simp only [value?_pure, Option.some.injEq, Prod.mk.injEq] at hMake
      rw [← hMake.1]
      exact .containsText
  | matchesText source =>
      rcases value?_bind_eq_some_iff.1 h with ⟨⟨o, text⟩, e, hText, hRest⟩
      rcases value?_bind_eq_some_iff.1 hRest with ⟨p, f, hPattern, hMake⟩
      simp only [value?_pure, Option.some.injEq, Prod.mk.injEq] at hMake
      rw [← hMake.1]
      rcases shape_pattern hPattern with ⟨hSource, hCase⟩
      refine .matchesText ?_ hCase
      rw [hSource]
      exact shape_textArgument hText

theorem shape_pseudoClass
    (hNested : ∀ part s, nested part = .ok s → P s)
    {before : List (Selector E)}
    {s : Selector E}
    (h : value? (pseudoClass nested before) c = some (s, d)) :
    IsPart P before s := by
  rcases value?_bind_eq_some_iff.1 h with ⟨start, e, _, hRest⟩
  rcases value?_bind_eq_some_iff.1 hRest with ⟨_, f, _, hRest⟩
  rcases value?_bind_eq_some_iff.1 hRest with ⟨name, g, _, hMeaning⟩
  split at hMeaning
  · next known hKnown => exact shape_meaning hNested hKnown hMeaning
  · simp at hMeaning

------------------------------------------------------------
-- Compounds, Chains and Groups
------------------------------------------------------------

/- Only the first part of a compound is a star or a name. -/
theorem partStart?_after_first
    {x : Char}
    {start : PartStart}
    (h : partStart? false x = some start) :
    start ≠ .star ∧ start ≠ .name := by
  unfold partStart? at h
  repeat' split at h
  all_goals simp_all
  all_goals subst h
  all_goals simp

theorem shape_part?
    (hNested : ∀ part s, nested part = .ok s → P s)
    {before : List (Selector E)}
    {s : Selector E}
    (h : value? (part? nested before) c = some (some s, d)) :
    IsPart P before s := by
  rw [value?_part?] at h
  split at h
  · next start hStart =>
      simp only [Option.map_eq_some_iff, Prod.exists, Prod.mk.injEq,
        Option.some.injEq] at h
      rcases h with ⟨_, e, hRead, rfl, rfl⟩
      rcases Option.bind_eq_some_iff.1 hStart with ⟨x, _, hKind⟩
      have hFirst : start = .star ∨ start = .name → before = [] := by
        intro hNamed
        by_cases hEmpty : before.isEmpty = true
        · simpa using hEmpty
        · rw [Bool.eq_false_iff.2 hEmpty] at hKind
          have hOther := partStart?_after_first hKind
          rcases hNamed with hStar | hName
          · exact absurd hStar hOther.1
          · exact absurd hName hOther.2
      cases start with
      | star =>
          rw [hFirst (.inl rfl)]
          rcases value?_bind_eq_some_iff.1 hRead with ⟨_, f, _, hAfter⟩
          exact shape_afterStar hAfter
      | hash =>
          rcases shape_markedName hRead with ⟨name, hSome, rfl⟩
          exact .id hSome
      | dot =>
          rcases shape_markedName hRead with ⟨name, hSome, rfl⟩
          exact .className hSome
      | bracket => exact shape_attributeTest hRead
      | colon => exact shape_pseudoClass hNested hRead
      | name =>
          rw [hFirst (.inr rfl)]
          rcases value?_bind_eq_some_iff.1 hRead with ⟨name, f, hName, hAfter⟩
          exact shape_afterName (shape_tagName hName) hAfter
  · simp at h

theorem shape_partsFrom
    (hNested : ∀ part s, nested part = .ok s → P s)
    {before parts : List (Selector E)}
    (h : partsFrom nested before c = .ok parts d) :
    ∃ more, parts = before ++ more ∧ ArePartsAfter P before more := by
  fun_induction partsFrom nested before c with
  | case1 before c part e hPart _ ih =>
      rcases ih h with ⟨more, hParts, hMore⟩
      refine ⟨part :: more, ?_, ?_⟩
      · rw [hParts, List.append_assoc]
        rfl
      · exact .cons (shape_part? hNested (value?_eq_some_iff.2 hPart)) hMore
  | case2 before c e hPart =>
      cases h
      exact ⟨[], by simp, .nil⟩
  | case3 before c fault e hPart => simp at h

theorem shape_compound
    (hNested : ∀ part s, nested part = .ok s → P s)
    {s : Selector E}
    (h : value? (compound nested) c = some (s, d)) :
    IsCompound P s := by
  rcases value?_bind_eq_some_iff.1 h with ⟨parts, e, hParts, hMake⟩
  have hRead : partsFrom nested [] c = .ok parts e :=
    value?_eq_some_iff.1 hParts
  rcases shape_partsFrom hNested hRead with ⟨more, hMore, hShape⟩
  rw [List.nil_append] at hMore
  subst hMore
  by_cases hEmpty : parts.isEmpty = true
  · rw [if_pos hEmpty] at hMake
    simp at hMake
  · rw [if_neg hEmpty] at hMake
    simp only [value?_pure, Option.some.injEq, Prod.mk.injEq] at hMake
    exact ⟨parts, by simpa using hEmpty, hShape, hMake.1.symm⟩

theorem shape_next?
    (hNested : ∀ part s, nested part = .ok s → P s)
    {combinator : Combinator}
    {right : Selector E}
    (h : value? (next? nested) c = some (some (combinator, right), d)) :
    IsCompound P right := by
  rcases value?_bind_eq_some_iff.1 h with ⟨link, e, _, hLink⟩
  cases link with
  | finished => simp at hLink
  | related combinator' =>
      rcases value?_bind_eq_some_iff.1 hLink with ⟨s, f, hRead, hPair⟩
      simp only [value?_pure, Option.some.injEq, Prod.mk.injEq] at hPair
      rw [← hPair.1.2]
      exact shape_compound hNested hRead

theorem shape_chainFrom
    (hNested : ∀ part s, nested part = .ok s → P s)
    {left s : Selector E}
    (hLeft : IsChain P left)
    (h : chainFrom nested left c = .ok s d) :
    IsChain P s := by
  fun_induction chainFrom nested left c with
  | case1 left c combinator right e hNext _ ih =>
      have hRight := shape_next? hNested (value?_eq_some_iff.2 hNext)
      exact ih (.related hLeft hRight) h
  | case2 left c e hNext =>
      cases h
      exact hLeft
  | case3 left c fault e hNext => simp at h

/- The scope is a chain, and so it may stand before a sign. -/
theorem isChain_scope : IsChain P .scope :=
  .compound ⟨[.scope], by simp, .cons .scope .nil, rfl⟩

theorem shape_chain
    (hNested : ∀ part s, nested part = .ok s → P s)
    {s : Selector E}
    (h : value? (chain nested) c = some (s, d)) :
    IsChain P s := by
  rw [value?_chain] at h
  by_cases hSign : (c.rest.head?.bind combinator?).isSome = true
  · rw [if_pos hSign] at h
    exact shape_chainFrom hNested isChain_scope
      (value?_eq_some_iff.1 h)
  · rw [if_neg hSign, Option.bind_eq_some_iff] at h
    rcases h with ⟨⟨first, f⟩, hFirst, hRest⟩
    exact shape_chainFrom hNested (.compound (shape_compound hNested hFirst))
      (value?_eq_some_iff.1 hRest)

theorem shape_branch
    (hNested : ∀ part s, nested part = .ok s → P s)
    {s : Selector E}
    {goesOn : Bool}
    (h : value? (branch nested) c = some ((s, goesOn), d)) :
    IsChain P s := by
  rcases value?_bind_eq_some_iff.1 h with ⟨_, e, _, hRest⟩
  rcases value?_bind_eq_some_iff.1 hRest with ⟨next, f, _, hRest⟩
  split at hRest
  · simp at hRest
  · rcases value?_bind_eq_some_iff.1 hRest with ⟨left, g, hChain, hRest⟩
    rcases value?_bind_eq_some_iff.1 hRest with ⟨comma, k, _, hPair⟩
    simp only [value?_pure, Option.some.injEq, Prod.mk.injEq] at hPair
    rw [← hPair.1.1]
    exact shape_chain hNested hChain

theorem shape_branchesFrom
    (hNested : ∀ part s, nested part = .ok s → P s)
    {before branches : List (Selector E)}
    (hBefore : ∀ b ∈ before, IsChain P b)
    (h : branchesFrom nested before c = .ok branches d) :
    branches ≠ [] ∧ ∀ b ∈ branches, IsChain P b := by
  have hMore :
      ∀ {before : List (Selector E)} {s : Selector E},
        (∀ b ∈ before, IsChain P b) → IsChain P s →
          ∀ b ∈ before ++ [s], IsChain P b := by
    intro before s hOld hNew b hMem
    rw [List.mem_append, List.mem_singleton] at hMem
    rcases hMem with hMem | rfl
    · exact hOld b hMem
    · exact hNew
  fun_induction branchesFrom nested before c with
  | case1 before c s e hBranch _ ih =>
      have hChain := shape_branch hNested (value?_eq_some_iff.2 hBranch)
      exact ih (hMore hBefore hChain) h
  | case2 before c s e hBranch =>
      have hChain := shape_branch hNested (value?_eq_some_iff.2 hBranch)
      cases h
      exact ⟨by simp, hMore hBefore hChain⟩
  | case3 before c fault e hBranch => simp at h

theorem shape_group
    (hNested : ∀ part s, nested part = .ok s → P s)
    {s : Selector E}
    (h : value? (group nested) c = some (s, d)) :
    IsGroup P s := by
  rcases value?_bind_eq_some_iff.1 h with ⟨branches, e, hRead, hMake⟩
  simp only [value?_pure, Option.some.injEq, Prod.mk.injEq] at hMake
  rcases shape_branchesFrom hNested (by simp)
    (value?_eq_some_iff.1 hRead) with ⟨hSome, hChains⟩
  exact ⟨branches, hSome, hChains, hMake.1.symm⟩

/- What a part of a query writes has the shape of a group. -/
theorem shape_readPart
    {part : Cursor}
    {s : Selector E}
    (hNested :
      ∀ inner t, inner.rest.length < part.rest.length →
        readPart E inner = .ok t → P t)
    (h : readPart E part = .ok s) :
    IsGroup P s := by
  have hGroup := toOption_readPart (E := E) part
  rw [h] at hGroup
  rcases Option.map_eq_some_iff.1 hGroup.symm with ⟨⟨s', d⟩, hRead, rfl⟩
  refine shape_group ?_ hRead
  intro inner t hInner
  by_cases hShorter : inner.rest.length < part.rest.length
  · rw [if_pos hShorter] at hInner
    exact hNested inner t hShorter hInner
  · rw [if_neg hShorter] at hInner
    simp at hInner

end Scan

/-
  What holds of groups whose inner selectors have it holds of
  all selectors that are written.
-/
theorem Selector.IsWritten.induction
    {P : Selector E → Prop}
    (hGroup : ∀ s, IsGroup (fun t => IsWritten t ∧ P t) s → P s)
    {s : Selector E}
    (h : IsWritten s) :
    P s := by
  rcases h with ⟨part, hRead⟩
  induction hLength : part.rest.length using Nat.strongRecOn
    generalizing part s with
  | ind length ih =>
      apply hGroup
      apply Scan.shape_readPart _ hRead
      intro inner t hShorter hInner
      rw [hLength] at hShorter
      exact ⟨⟨inner, hInner⟩, ih _ hShorter inner hInner rfl⟩

end TreeQuery
