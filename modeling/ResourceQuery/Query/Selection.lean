/-
What a query selects.

Below the root a query has top-level selections, and each of these embeds some of the children it declares, one level
deep. A requested resource is selected in one of three ways:
- directly, if it has no parent, or if the root is its parent;
- by its parent, if that is requested too: the parent embeds it, provided that it declares it as a child;
- by its parent, selected on its behalf, if that is registered but not requested.
-/
import ResourceQuery.Registry.Basic

namespace ResourceQuery

/-- a top-level selection, with the children it embeds -/
structure Selection where
  id : ResourceId
  metadata : Metadata
  embedded : List (ResourceId × Metadata)
deriving DecidableEq, Repr

namespace Selection

/-- the fragment around its embedded children, each on its own and separated by line breaks -/
def render (s : Selection) : String :=
  s.metadata.fragment.render ("\n".intercalate (s.embedded.map fun child => child.2.fragment.render ""))

/-- its own declarations, then those of its embedded children -/
def declarations (s : Selection) : List Variable :=
  s.metadata.declarations ++ s.embedded.flatMap fun child => child.2.declarations

def embeddedIds (s : Selection) : List ResourceId := s.embedded.map Prod.fst

end Selection

namespace Registry

/-- The resource selected at top level for a requested one with metadata `m`; none if it is left to a requested parent,
or if its parent is unknown. A child of the root is always selected directly, since the root encloses everything. -/
def carrier? (r : Registry) (root : ResourceId) (wanted : List ResourceId) (id : ResourceId) (m : Metadata) :
    Option (ResourceId × Metadata) :=
  match m.parent with
  | none => some (id, m)
  | some parent =>
    if parent = root then some (id, m)
    else if parent ∈ wanted then none
    else (r.get? parent).map (parent, ·)

/-- the wanted and registered resources among the children that `m` has a slot for, in their declared order -/
def embeddable (r : Registry) (wanted : List ResourceId) (m : Metadata) : List (ResourceId × Metadata) :=
  (m.slots.filter (· ∈ wanted)).filterMap fun child => (r.get? child).map (child, ·)

/-- the top-level selection of a resource -/
def selection (r : Registry) (wanted : List ResourceId) (id : ResourceId) (m : Metadata) : Selection :=
  ⟨id, m, r.embeddable wanted m⟩

end Registry

end ResourceQuery
