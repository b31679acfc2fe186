import TreeQuery.Text.Alphabetic
import TreeQuery.Text.Lowercase

/-
  Simple case folding: the representative that the variants
  of a letter share.

  Folding follows the small letters, apart from letters with
  a variant of their own and from Cherokee, whose capitals
  represent.  It knows the letters of Unicode 16 only.

  Key definitions include:
    * `foldChar`
    * `caseVariants`
-/

namespace TreeQuery.Text

/- Letters that fold to something else than their small letter. -/
def variantShifts : List Shift :=
  [⟨0xB5, 0xB5, 1, 775⟩, ⟨0x17F, 0x17F, 1, -268⟩, ⟨0x345, 0x345, 1, 116⟩,
   ⟨0x3C2, 0x3C2, 1, 1⟩, ⟨0x3D0, 0x3D0, 1, -30⟩, ⟨0x3D1, 0x3D1, 1, -25⟩,
   ⟨0x3D5, 0x3D5, 1, -15⟩, ⟨0x3D6, 0x3D6, 1, -22⟩, ⟨0x3F0, 0x3F0, 1, -54⟩,
   ⟨0x3F1, 0x3F1, 1, -48⟩, ⟨0x3F5, 0x3F5, 1, -64⟩, ⟨0x13F8, 0x13FD, 1, -8⟩,
   ⟨0x1C80, 0x1C80, 1, -6222⟩, ⟨0x1C81, 0x1C81, 1, -6221⟩, ⟨0x1C82, 0x1C82, 1, -6212⟩,
   ⟨0x1C83, 0x1C84, 1, -6210⟩, ⟨0x1C85, 0x1C85, 1, -6211⟩, ⟨0x1C86, 0x1C86, 1, -6204⟩,
   ⟨0x1C87, 0x1C87, 1, -6180⟩, ⟨0x1C88, 0x1C88, 1, 35267⟩, ⟨0x1E9B, 0x1E9B, 1, -58⟩,
   ⟨0x1FBE, 0x1FBE, 1, -7173⟩, ⟨0x1FD3, 0x1FD3, 1, -7235⟩, ⟨0x1FE3, 0x1FE3, 1, -7219⟩,
   ⟨0xAB70, 0xABBF, 1, -38864⟩, ⟨0xFB05, 0xFB05, 1, 1⟩]

/- The Cherokee capitals, which represent themselves. -/
def isCherokeeCapital (c : Char) : Bool :=
  0x13A0 ≤ c.toNat && c.toNat ≤ 0x13F5

/- The representative of the case variants of a character. -/
def foldChar (c : Char) : Char :=
  match shiftOf? variantShifts c.toNat with
  | some s => Char.ofNat (s.apply c.toNat)
  | none =>
      if isCherokeeCapital c || inRanges addedLetterRanges c.toNat then c
      else lowerChar c

/- The characters that fold as the given one does. -/
def caseVariants (c : Char) : List Char :=
  let folded := foldChar c
  let others :=
    (variantShifts ++ lowerShifts).filterMap fun s =>
      (s.source? folded.toNat).map Char.ofNat
  folded :: others.filter (foldChar · == folded)

end TreeQuery.Text
