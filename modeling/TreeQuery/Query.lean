import TreeQuery.Collect
import TreeQuery.Reading.Group

/-
  Queries: selectors that have been read from their text.

  A query is read once and may then be run any number of
  times.  The blanks around its text do not matter.

  Key definitions include:
    * `Query`
    * `Query.read`
    * `Query.select`
    * `Query.selectAll`
    * `Query.first?`
    * `Query.accepts`
-/

namespace TreeQuery

/- The text of a query without outer blanks, and its selector. -/
structure Query (E : Engine) where
  text : String
  selector : Selector E
deriving Repr

namespace Query

variable {E : Engine}

/- Read a query, which may not be blank. -/
def read (E : Engine) (text : String) : Except QueryError (Query E) :=
  let trimmed := String.ofList (Text.trim text.toList)
  if trimmed.isEmpty then .error .blank
  else
    match Selector.read E trimmed with
    | .ok selector => .ok ⟨trimmed, selector⟩
    | .error error => .error (.malformed error)

/- The canonical text of the selector. -/
def canonical (q : Query E) : String :=
  q.selector.text

/- The matching elements from a root on, in document order. -/
def select
    (q : Query E)
    (t : Tree)
    (root : Node)
    (options : Options := {}) : List Node :=
  q.selector.collect t options root

/- The matching elements from several roots on, without repetition. -/
def selectAll
    (q : Query E)
    (t : Tree)
    (roots : List Node)
    (options : Options := {}) : List Node :=
  q.selector.collectAll t options roots

/- The first matching element from a root on. -/
def first? (q : Query E) (t : Tree) (root : Node) : Option Node :=
  q.selector.collectFirst? t {} root

/- An element matches the query when it is run from a scope. -/
def accepts (q : Query E) (t : Tree) (n scope : Node) : Bool :=
  t.isElement n && q.selector.accepts ⟨t, scope, {}⟩ n

end Query

end TreeQuery
