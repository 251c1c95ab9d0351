/-
What can be wrong with a text as JSON: it ends too early, or it goes on in a way that no JSON text does.
-/

namespace ResourceQuery.Json

/-- why a text is no JSON -/
inductive Fault where
  /-- the text ends inside a value -/
  | ended
  /-- the text holds something that cannot stand there -/
  | malformed
deriving DecidableEq, Repr, Inhabited

end ResourceQuery.Json
