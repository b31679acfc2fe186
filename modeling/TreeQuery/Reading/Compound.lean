import TreeQuery.Reading.PseudoClass

/-
  Compound selectors: parts that are written one directly
  after the other and test the same node.

  A compound begins with a name or a star, or with one of the
  parts that have a sign of their own.

  Key definitions include:
    * `Scan.part?`
    * `Scan.partsFrom`
    * `Scan.compound`

  Main statements:
    * `Scan.length_lt_of_part?`
    * `Scan.consumes_compound`
-/

namespace TreeQuery.Scan

variable {E : Engine}

------------------------------------------------------------
-- Names
------------------------------------------------------------

/- Read a name in small letters. -/
def tagName : Scan String :=
  Text.asciiLowerString <$> identifier

/- Read what may follow a star for a namespace. -/
def afterStar (E : Engine) : Scan (Selector E) := do
  if ← chomp "|" then
    if ← chomp "*" then
      return .universal
    else
      return .tag (.anyNamespace (← tagName))
  else
    return .universal

/- Read a star, and what may follow it for a namespace. -/
def starPart (E : Engine) : Scan (Selector E) := do
  advance
  afterStar E

/- Read what may follow a name for a namespace. -/
def afterName (E : Engine) (name : String) : Scan (Selector E) := do
  if ← chomp "|" then
    if ← chomp "*" then
      return .tag (.namespaceOnly name)
    else
      return .tag (.qualified name (← tagName))
  else
    return .tag (.name name)

/- Read a name, and what may follow it for a namespace. -/
def namePart (E : Engine) : Scan (Selector E) := do
  afterName E (← tagName)

/- Read a sign and the name after it. -/
def markedName (make : String → Selector E) : Scan (Selector E) := do
  advance
  return make (← identifier)

------------------------------------------------------------
-- Parts
------------------------------------------------------------

/- The ways in which a part can begin. -/
inductive PartStart where
| star
| hash
| dot
| bracket
| colon
| name
deriving DecidableEq, Repr

/-
  How a part begins with a character.  Only the first part of
  a compound is a star or a name.
-/
def partStart? (isFirst : Bool) (c : Char) : Option PartStart :=
  if c = '#' then some .hash
  else if c = '.' then some .dot
  else if c = '[' then some .bracket
  else if c = ':' then some .colon
  else if isFirst then
    if c = '*' then some .star
    else if isIdentifierChar c || c == '\\' then some .name
    else none
  else
    none

/- Read a part that begins in a given way. -/
def partWith
    (nested : Cursor → Except Fault (Selector E))
    (parts : List (Selector E)) : PartStart → Scan (Selector E)
| .star => starPart E
| .hash => markedName .id
| .dot => markedName .className
| .bracket => attributeTest E
| .colon => pseudoClass nested parts
| .name => namePart E

/- Read the part that comes after others, if there is one. -/
def part?
    (nested : Cursor → Except Fault (Selector E))
    (parts : List (Selector E)) : Scan (Option (Selector E)) := fun c =>
  match c.peek?.bind (partStart? parts.isEmpty) with
  | some start => (some <$> partWith nested parts start) c
  | none => .ok none c

------------------------------------------------------------
-- Progress of Parts
------------------------------------------------------------

theorem advances_tagName : Advances tagName :=
  advances_identifier.map _

theorem consumes_tagName : Consumes tagName :=
  consumes_identifier.map _

theorem advances_afterStar : Advances (afterStar E) := by
  unfold afterStar
  refine (advances_chomp _).bind fun _ => Advances.ite ?_ ?_
  · refine (advances_chomp _).bind fun _ => Advances.ite ?_ ?_
    · exact Advances.pure _
    · exact advances_tagName.bind fun _ => Advances.pure _
  · exact Advances.pure _

theorem advances_starPart : Advances (starPart E) :=
  advances_advance.bind fun _ => advances_afterStar

theorem advances_afterName (name : String) :
    Advances (afterName E name) := by
  unfold afterName
  refine (advances_chomp _).bind fun _ => Advances.ite ?_ ?_
  · refine (advances_chomp _).bind fun _ => Advances.ite ?_ ?_
    · exact Advances.pure _
    · exact advances_tagName.bind fun _ => Advances.pure _
  · exact Advances.pure _

theorem advances_namePart : Advances (namePart E) :=
  advances_tagName.bind advances_afterName

theorem consumes_namePart : Consumes (namePart E) :=
  consumes_tagName.bind_left advances_afterName

theorem consumes_markedName (make : String → Selector E) :
    Consumes (markedName make) :=
  Consumes.bind_right advances_advance fun _ =>
    Consumes.bind_left consumes_identifier fun _ => Advances.pure _

theorem advances_markedName (make : String → Selector E) :
    Advances (markedName make) :=
  advances_advance.bind fun _ =>
    advances_identifier.bind fun _ => Advances.pure _

theorem advances_pseudoClassName (start : Nat) :
    Advances (pseudoClassName start) := by
  unfold pseudoClassName
  refine advances_peek?.bind fun _ => Advances.ite ?_ ?_
  · exact advances_failAt _ _
  · exact advances_identifier.map _

theorem advances_pseudoClass
    (nested : Cursor → Except Fault (Selector E))
    (parts : List (Selector E)) :
    Advances (pseudoClass nested parts) := by
  unfold pseudoClass
  refine advances_offset.bind fun start => ?_
  refine advances_advance.bind fun _ => ?_
  refine (advances_pseudoClassName start).bind fun name => ?_
  split
  · exact advances_meaning _ _ _ _
  · exact advances_failAt _ _

theorem advances_partWith
    (nested : Cursor → Except Fault (Selector E))
    (parts : List (Selector E))
    (start : PartStart) :
    Advances (partWith nested parts start) := by
  cases start with
  | star => exact advances_starPart
  | hash => exact advances_markedName _
  | dot => exact advances_markedName _
  | bracket => exact advances_attributeTest
  | colon => exact advances_pseudoClass nested parts
  | name => exact advances_namePart

theorem advances_part?
    (nested : Cursor → Except Fault (Selector E))
    (parts : List (Selector E)) :
    Advances (part? nested parts) := by
  intro c
  unfold part?
  split
  · exact (advances_partWith nested parts _).map some c
  · exact Cursor.Reaches.refl c

/- A part that has been read is not empty. -/
theorem length_lt_of_part?
    {nested : Cursor → Except Fault (Selector E)}
    {parts : List (Selector E)}
    {c d : Cursor}
    {s : Selector E}
    (h : part? nested parts c = .ok (some s) d) :
    d.rest.length < c.rest.length := by
  unfold part? at h
  split at h
  · next start hStart =>
      rcases Option.bind_eq_some_iff.1 hStart with ⟨next, hNext, _⟩
      rcases map_eq_ok_iff.1 h with ⟨a, hRead, _⟩
      cases start with
      | star =>
          rcases bind_eq_ok_iff.1 hRead with ⟨_, e, hStar, hAfter⟩
          have hRest := advances_afterStar.length_le hAfter
          have hFirst := Cursor.length_advance_lt hNext
          cases hStar
          omega
      | hash => exact consumes_markedName _ _ _ _ hRead
      | dot => exact consumes_markedName _ _ _ _ hRead
      | bracket => exact consumes_attributeTest _ _ _ hRead
      | colon => exact consumes_pseudoClass _ _ _ _ _ hRead
      | name => exact consumes_namePart _ _ _ hRead
  · simp at h

------------------------------------------------------------
-- Compounds
------------------------------------------------------------

/- Read parts after others for as long as there are any. -/
def partsFrom
    (nested : Cursor → Except Fault (Selector E))
    (parts : List (Selector E))
    (c : Cursor) : EStateM.Result Fault Cursor (List (Selector E)) :=
  match h : part? nested parts c with
  | .ok (some s) d =>
      have := length_lt_of_part? h
      partsFrom nested (parts ++ [s]) d
  | .ok none d => .ok parts d
  | .error fault d => .error fault d
termination_by c.rest.length

/- Read a compound, which has one part at least. -/
def compound
    (nested : Cursor → Except Fault (Selector E)) :
    Scan (Selector E) := do
  let parts ← partsFrom nested []
  if parts.isEmpty then
    fail (.expectedSelector (← peek?))
  else
    return .ofParts parts

------------------------------------------------------------
-- Progress of Compounds
------------------------------------------------------------

theorem advances_partsFrom
    (nested : Cursor → Except Fault (Selector E))
    (parts : List (Selector E)) :
    Advances (partsFrom nested parts) := by
  intro c
  fun_induction partsFrom nested parts c with
  | case1 parts c s d h _ ih =>
      have hPart := advances_part? nested parts c
      rw [h] at hPart
      exact hPart.trans ih
  | case2 parts c d h =>
      have hPart := advances_part? nested parts c
      rw [h] at hPart
      exact hPart
  | case3 parts c fault d h =>
      have hPart := advances_part? nested parts c
      rw [h] at hPart
      exact hPart

/- Parts that have been read are not empty. -/
theorem length_lt_of_partsFrom
    {nested : Cursor → Except Fault (Selector E)}
    {c d : Cursor}
    {parts : List (Selector E)}
    (hParts : parts ≠ [])
    (h : partsFrom nested [] c = .ok parts d) :
    d.rest.length < c.rest.length := by
  rw [partsFrom] at h
  split at h
  · next s e hPart =>
      have hFirst := length_lt_of_part? hPart
      have hRest := (advances_partsFrom nested _).length_le h
      omega
  · next e hPart =>
      simp only [EStateM.Result.ok.injEq] at h
      exact absurd h.1.symm hParts
  · simp at h

theorem advances_compound (nested : Cursor → Except Fault (Selector E)) :
    Advances (compound nested) := by
  unfold compound
  refine (advances_partsFrom nested []).bind fun parts =>
    Advances.ite ?_ ?_
  · exact advances_peek?.bind fun _ => advances_fail _
  · exact Advances.pure _

/- A compound is not empty. -/
theorem consumes_compound (nested : Cursor → Except Fault (Selector E)) :
    Consumes (compound nested) := by
  intro c e s h
  rcases bind_eq_ok_iff.1 h with ⟨parts, d, hParts, hLast⟩
  split at hLast
  · rcases bind_eq_ok_iff.1 hLast with ⟨_, _, _, hFail⟩
    simp [fail] at hFail
  · next hEmpty =>
      have hNe : parts ≠ [] := by
        rintro rfl
        simp at hEmpty
      have hLess := length_lt_of_partsFrom hNe hParts
      rcases pure_eq_ok_iff.1 hLast with ⟨_, rfl⟩
      exact hLess

end TreeQuery.Scan
