import TreeQuery.Pattern.Standard
import TreeQuery.Proofs.Containment
import TreeQuery.Proofs.Tree.StringValue

/-
  Texts that are looked for as they are stored.

  The text of an element stands in the text of every element
  around it, so whatever is found in the one is found in the
  others.

  Main statements:
    * `Selector.accepts_whole_iff`
    * `Tree.texts_stand_in_order`
-/

namespace TreeQuery

namespace Selector

variable {E : Engine}
variable {ctx : Context} {needle : String} {n a : Node}

/- A text is looked for in the text of an element, as stored. -/
theorem accepts_whole_iff :
    (.containsText .whole needle : Selector E).accepts ctx n = true ↔
      ctx.tree.isElement n = true ∧
        needle.toList <:+: (ctx.tree.stringValue n).toList := by
  rw [accepts, Bool.and_eq_true, TextSource.contains]
  simp only [TextSource.isNormalized, Bool.false_eq_true, ↓reduceIte,
    Text.occursIn_iff_infix]
  rfl

/- What is found in an element is found in all elements around it. -/
theorem accepts_whole_of_mem_ancestors
    (h : (.containsText .whole needle : Selector E).accepts ctx n = true)
    (hAbove : a ∈ n.ancestors)
    (hElement : ctx.tree.isElement a = true) :
    (.containsText .whole needle : Selector E).accepts ctx a = true := by
  rw [accepts_whole_iff] at h ⊢
  have hHolds : ctx.tree.HoldsContent n :=
    .inl (by simpa [Tree.isElement] using h.1)
  exact ⟨hElement,
    h.2.trans (Tree.stringValue_infix_of_mem_ancestors hHolds hAbove)⟩

end Selector

namespace Tree

/-
  The nodes below a node come child by child, each child before
  the nodes below it.  The text of an element or a document is
  what its children contribute, in order; a comment contributes
  nothing.  So the text of a child that is no comment stands in
  the text of its parent, and an element in which a text is
  found as it is stored is found in each element around it.
-/
theorem texts_stand_in_order (E : Engine) (t : Tree) :
    (∀ n, t.descendantsOrSelf n =
        n :: (t.children n).flatMap t.descendantsOrSelf) ∧
      (∀ n, t.HoldsContent n →
        t.stringValue n =
          String.join ((t.children n).map t.contribution)) ∧
      (∀ n c, c ∈ t.children n → t.kind? c ≠ some .comment →
        (t.stringValue c).toList <:+: (t.stringValue n).toList) ∧
      (∀ text, text ≠ "" →
        Selector.read E (":containsWholeText(" ++ Text.quoted text ++ ")") =
          .ok (.containsText .whole text)) ∧
      ∀ scope options needle n a,
        (.containsText .whole needle : Selector E).accepts
            ⟨t, scope, options⟩ n = true →
          a ∈ n.ancestors → t.isElement a = true →
            (.containsText .whole needle : Selector E).accepts
              ⟨t, scope, options⟩ a = true := by
  refine ⟨t.descendantsOrSelf_eq, fun n h => stringValue_eq_join_children h,
    fun n c h => stringValue_infix_of_mem_children h, ?_, ?_⟩
  · intro text hSome
    exact Selector.read_containsText_text hSome .whole
  · intro scope options needle n a hFound hAbove hElement
    exact Selector.accepts_whole_of_mem_ancestors hFound hAbove hElement

/- A text, a comment, and a paragraph in a document, in an element. -/
def layered : Tree :=
  .element (.unqualified "div") []
    [.text "a", .comment "b",
      .document [.element (.unqualified "p") [] [.text "c"]]]

theorem stringValue_layered :
    layered.stringValue .root = "ac" ∧
      layered.stringValue (.path [2]) = "c" ∧
        layered.stringValue (.path [0, 2]) = "c" := by
  have hParagraph : layered.stringValue (.path [0, 2]) = "c" := by
    rw [stringValue_eq_join_children (.inl rfl)]
    rfl
  have hDocument : layered.stringValue (.path [2]) = "c" := by
    rw [stringValue_eq_join_children (.inr rfl)]
    change String.join [layered.stringValue (.path [0, 2])] = "c"
    rw [hParagraph]
    rfl
  refine ⟨?_, hDocument, hParagraph⟩
  rw [stringValue_eq_join_children (.inl rfl)]
  change String.join ["a", "", layered.stringValue (.path [2])] = "ac"
  rw [hDocument]
  rfl

/-
  The comment is left out of the text of the element, and the
  paragraph is not, though a document stands between them.
-/
theorem texts_stand_in_order_layered :
    layered.HoldsContent .root ∧
      String.join ((layered.children .root).map layered.contribution) =
          "ac" ∧
        .path [2] ∈ layered.children .root ∧
          layered.kind? (.path [2]) ≠ some .comment ∧
            layered.stringValue (.path [2]) = "c" ∧
              "c".toList <:+: "ac".toList ∧
                "c" ≠ "" ∧
                  Selector.read .standard ":containsWholeText(\"c\")" =
                      .ok (.containsText .whole "c") ∧
                    (.containsText .whole "c" : Selector .standard).accepts
                        ⟨layered, .root, {}⟩ (.path [0, 2]) = true ∧
                      .root ∈ (Node.path [0, 2]).ancestors ∧
                        layered.isElement .root = true ∧
                          (.containsText .whole
                              "c" : Selector .standard).accepts
                            ⟨layered, .root, {}⟩ .root = true := by
  rcases texts_stand_in_order .standard layered with
    ⟨_, hJoin, hPart, hRead, hFound⟩
  rcases stringValue_layered with ⟨hWhole, hDocument, hParagraph⟩
  have hRoot : layered.HoldsContent .root := .inl rfl
  have hContent :
      String.join ((layered.children .root).map layered.contribution) =
        "ac" := by
    rw [← hJoin .root hRoot, hWhole]
  have hChild : .path [2] ∈ layered.children .root := by decide
  have hOther : layered.kind? (.path [2]) ≠ some .comment := by decide
  have hInfix := hPart .root (.path [2]) hChild hOther
  rw [hDocument, hWhole] at hInfix
  have hSome : "c" ≠ "" := by decide
  have hInner :
      (.containsText .whole "c" : Selector .standard).accepts
        ⟨layered, .root, {}⟩ (.path [0, 2]) = true := by
    rw [Selector.accepts_whole_iff, hParagraph]
    exact ⟨rfl, List.infix_refl _⟩
  have hAbove : .root ∈ (Node.path [0, 2]).ancestors := by decide
  have hElement : layered.isElement .root = true := rfl
  exact ⟨hRoot, hContent, hChild, hOther, hDocument, hInfix, hSome,
    hRead "c" hSome, hInner, hAbove, hElement,
    hFound .root {} "c" (.path [0, 2]) .root hInner hAbove hElement⟩

/-
  The text of a comment does not stand in the text of the
  element that it is a child of.
-/
theorem comment_is_no_part_of_its_parent :
    .path [1] ∈ layered.children .root ∧
      layered.kind? (.path [1]) = some .comment ∧
        layered.stringValue (.path [1]) = "b" ∧
          ¬ (layered.stringValue (.path [1])).toList <:+:
              (layered.stringValue .root).toList := by
  have hComment : layered.stringValue (.path [1]) = "b" := rfl
  refine ⟨by decide, by decide, hComment, ?_⟩
  rw [hComment, stringValue_layered.1]
  decide

end Tree

end TreeQuery
