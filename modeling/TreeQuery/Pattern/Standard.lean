import TreeQuery.Pattern
import TreeQuery.Pattern.Reader
import TreeQuery.Pattern.Search

/-
  The standard engine: expressions with look-arounds and back
  references, searched by automata and along plans.

  The engine refuses what it does not know: classes that are
  named by a property of characters, conditions on groups, and
  calls of groups.  Queries are run with it; what is proved of
  them holds with any engine.

  Key definitions include:
    * `Engine.standard`
-/

namespace TreeQuery

/- The engine of this library. -/
def Engine.standard : Engine where
  Matcher := Pattern.Matcher
  read? ignoreCase source := do
    let e ← Pattern.Expr.read? ignoreCase source.toList
    e.matcher? ignoreCase
  search? m text := m.search? text.toList.toArray

end TreeQuery
