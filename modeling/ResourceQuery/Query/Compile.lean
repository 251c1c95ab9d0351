/-
Compiling a request into one query document.

The requested resources are placed one after the other. A draft holds the top-level selections made so far and the
variables they need; the document, the list of its resources and the list of what was left out are read off the final
draft. A document always ends with the spread that asks for the rate limit.

A lenient request leaves out what is unregistered or has no place; a strict one then fails. All other failures are
faults of the registry, and depend only on the part of it that the request reaches.
-/
import ResourceQuery.Query.Selection
import ResourceQuery.Query.VariableSet
import ResourceQuery.Registry.ParentChain

namespace ResourceQuery

/-! ## Requests and answers -/

/-- resources to fetch below a root -/
structure Request where
  root : ResourceId
  /-- in order; a repeat counts at its first place -/
  ids : List ResourceId := []
  /-- fail rather than leave something out -/
  strict : Bool := false
deriving DecidableEq, Repr

namespace Request

def add (q : Request) (ids : List ResourceId) : Request := { q with ids := q.ids ++ ids }

def withStrict (q : Request) (strict : Bool) : Request := { q with strict }

/-- what is asked for below the root: no repeats, and not the root itself -/
def wanted (q : Request) : List ResourceId := (q.ids.filter (· ≠ q.root)).eraseDups

end Request

/-- why a requested resource is not in a document -/
inductive SkipReason where
  | unregistered
  /-- registered, but nothing that the document selects embeds it -/
  | unreachable
deriving DecidableEq, Repr

def SkipReason.text : SkipReason → String
  | unregistered => "unregistered"
  | unreachable => "unreachable"

/-- a requested resource that was left out -/
structure Skipped where
  id : ResourceId
  reason : SkipReason
deriving DecidableEq, Repr

def Skipped.text (s : Skipped) : String := "`" ++ s.id.name ++ "` (" ++ s.reason.text ++ ")"

instance : ToString Skipped := ⟨Skipped.text⟩

/-- a document, and what went into it -/
structure CompiledQuery where
  document : String
  /-- the declarations in the header, in first-seen order -/
  declarations : List Variable
  /-- every resource with a selection in the document: the root, the top level, then what is only embedded -/
  resources : List ResourceId
  /-- what was requested and left out, in request order -/
  skipped : List Skipped
deriving DecidableEq, Repr

inductive CompileError where
  | unknownRoot (root : ResourceId)
  /-- a walk along parent links whose last name it held before -/
  | cyclicParentChain (chain : List ResourceId)
  | conflictingVariable (conflict : Conflict)
  /-- strict requests only -/
  | unresolved (skipped : List Skipped)
deriving DecidableEq, Repr

def Conflict.message (c : Conflict) : String :=
  "variable `$" ++ c.name ++ "` declared as both `" ++ c.first ++ "` and `" ++ c.second ++ "`"

def CompileError.message : CompileError → String
  | unknownRoot root => "root resource `" ++ root.name ++ "` is not registered"
  | cyclicParentChain chain => "cyclic parent chain: " ++ ResourceId.joined " -> " chain
  | conflictingVariable conflict => conflict.message
  | unresolved skipped =>
    toString skipped.length ++ " requested resources not in document: " ++ ", ".intercalate (skipped.map Skipped.text)

/-! ## Drafts -/

/-- the selections made so far, and the variables of these and of the root -/
structure Draft where
  declared : VariableSet
  selections : List Selection
deriving DecidableEq, Repr

namespace Draft

/-- the top level, in the order it was selected -/
def selected (d : Draft) : List ResourceId := d.selections.map Selection.id

/-- what is embedded below the top level, in order of first appearance -/
def embedded (d : Draft) : List ResourceId := (d.selections.flatMap Selection.embeddedIds).eraseDups

/-- adds a selection and its variables -/
def push (d : Draft) (s : Selection) : Except CompileError Draft := do
  let declared ← (d.declared.merge s.declarations).mapError .conflictingVariable
  return ⟨declared, d.selections ++ [s]⟩

end Draft

namespace Registry

/-- Fails if the parent links of a resource run in a cycle. -/
def checkParents (r : Registry) (id : ResourceId) : Except CompileError Unit := do
  let _ ← (r.parentChain id).mapError .cyclicParentChain

/-- Finds a place for one requested resource. A name that is not registered, has no place of its own, or is carried by
something selected before, changes nothing. -/
def place (r : Registry) (root : ResourceId) (wanted : List ResourceId) (d : Draft) (id : ResourceId) :
    Except CompileError Draft :=
  match r.get? id with
  | none => .ok d
  | some m => do
    r.checkParents id
    match r.carrier? root wanted id m with
    | none => return d
    | some (top, metadata) => if top ∈ d.selected then return d else d.push (r.selection wanted top metadata)

end Registry

/-! ## Documents -/

/-- the spread that closes every document; the client registers the fragment -/
def rateLimitSpread : String := "...rateLimit"

/-- the line that opens a query -/
def header (declared : VariableSet) : String :=
  if declared.isEmpty then "query \x7b" else "query (" ++ declared.text ++ ") \x7b"

/-- the root's fragment around the top-level selections, between the header and the rate limit -/
def Draft.document (d : Draft) (root : Metadata) : String :=
  header d.declared ++ "\n" ++ root.fragment.render ("\n".intercalate (d.selections.map Selection.render)) ++ "\n" ++
    rateLimitSpread ++ "\n\x7d"

/-! ## Compiling -/

namespace Request

/-- what is in the document for a request, root first -/
def resources (q : Request) (d : Draft) : List ResourceId :=
  q.root :: d.selected ++ d.embedded.filter (· ∉ d.selected)

/-- what has no place in the draft -/
def skipped (q : Request) (r : Registry) (d : Draft) : List Skipped :=
  (q.wanted.filter fun id => id ∉ d.selected ∧ id ∉ d.embedded).map fun id =>
    ⟨id, if r.contains id then .unreachable else .unregistered⟩

/-- places everything that is wanted; the root comes first, with its variables -/
def draft (q : Request) (r : Registry) (root : Metadata) : Except CompileError Draft := do
  r.checkParents q.root
  let declared ← (({} : VariableSet).merge root.declarations).mapError .conflictingVariable
  q.wanted.foldlM (r.place q.root q.wanted) ⟨declared, []⟩

/-- the document for a request, with its variables, its resources and what was left out -/
def compile (q : Request) (r : Registry) : Except CompileError CompiledQuery :=
  match r.get? q.root with
  | none => .error (.unknownRoot q.root)
  | some root => do
    let draft ← q.draft r root
    let skipped := q.skipped r draft
    if q.strict ∧ skipped ≠ [] then
      .error (.unresolved skipped)
    else
      .ok {
        document := draft.document root
        declarations := draft.declared.toList
        resources := q.resources draft
        skipped }

end Request

/-- the text of the document for a lenient request -/
def compileDocument (r : Registry) (root : ResourceId) (ids : List ResourceId) : Except CompileError String :=
  (({ root, ids } : Request).compile r).map CompiledQuery.document

end ResourceQuery
