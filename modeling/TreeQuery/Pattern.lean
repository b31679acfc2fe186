/-
  Patterns: regular expressions with the text that wrote them.

  Reading a regular expression and searching a text for it
  is left to an engine, of which nothing else is known.  A
  pattern is given by its text and its regard to case; what
  the engine made of them follows, so that patterns with the
  same text and the same regard to case are equal.

  Key definitions include:
    * `Engine`
    * `Pattern`
    * `Pattern.read?`
    * `Pattern.occursIn`

  Main statement:
    * `Pattern.eq_iff`
-/

namespace TreeQuery

------------------------------------------------------------
-- Engines
------------------------------------------------------------

/-
  An engine for regular expressions.

  `read?` makes a matcher of a text, with or without regard
  to case, unless the text is no regular expression.
  `search?` tells whether a match stands somewhere in a text,
  unless it gives up.
-/
structure Engine where
  Matcher : Type
  read? : (ignoreCase : Bool) → (source : String) → Option Matcher
  search? : Matcher → (text : String) → Option Bool

------------------------------------------------------------
-- Patterns
------------------------------------------------------------

/- A text that an engine reads, with the matcher it makes of it. -/
structure Pattern (E : Engine) where
  source : String
  ignoreCase : Bool
  matcher : E.Matcher
  reads : E.read? ignoreCase source = some matcher

namespace Pattern

variable {E : Engine}

/- The pattern that a text writes, if the engine reads it. -/
def read? (E : Engine) (ignoreCase : Bool) (source : String) :
    Option (Pattern E) :=
  match h : E.read? ignoreCase source with
  | some m => some ⟨source, ignoreCase, m, h⟩
  | none => none

/-
  The pattern matches somewhere in a text.  A search that
  gives up finds nothing.
-/
def occursIn (p : Pattern E) (text : String) : Bool :=
  (E.search? p.matcher text).getD false

/- The text and the regard to case determine a pattern. -/
theorem eq_iff
    {p q : Pattern E} :
    p = q ↔ p.source = q.source ∧ p.ignoreCase = q.ignoreCase := by
  constructor
  · rintro rfl
    exact ⟨rfl, rfl⟩
  · rintro ⟨hSource, hCase⟩
    rcases p with ⟨source, ignoreCase, m, hReads⟩
    rcases q with ⟨source', ignoreCase', m', hReads'⟩
    simp only at hSource hCase
    subst hSource hCase
    have hMatcher : m = m' :=
      Option.some.inj (hReads.symm.trans hReads')
    subst hMatcher
    rfl

instance : DecidableEq (Pattern E) := fun _ _ =>
  decidable_of_iff _ eq_iff.symm

instance : Repr (Pattern E) where
  reprPrec p _ := repr p.source

end Pattern

end TreeQuery
