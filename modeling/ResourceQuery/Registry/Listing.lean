/-
The listing of a registry: a block of lines for each resource, in registration order.

The first line of a block is the resource's name, with the field it appears under where that is another one. The other
lines are indented by two spaces, and a line with nothing to say is left out.
-/
import ResourceQuery.Registry.Basic

namespace ResourceQuery

/-- the lines of one resource -/
def Metadata.listing (m : Metadata) (id : ResourceId) : List String :=
  let field := m.fieldName id
  [id.name ++ if field = id.name then "" else " (field: " ++ field ++ ")"] ++
  (if m.declarations = [] then [] else ["  variables: " ++ ", ".intercalate (m.declarations.map Variable.text)]) ++
  (m.parent.map fun parent => "  parent: " ++ parent.name).toList ++
  (if m.children = [] then [] else ["  children: " ++ ResourceId.joined ", " m.children]) ++
  (m.responsePath.map fun path => "  response path: " ++ path).toList

/-- all blocks; every line is ended by a line break -/
def Registry.listing (r : Registry) : String :=
  String.join ((r.entries.entries.flatMap fun e => e.2.listing e.1).map (· ++ "\n"))

end ResourceQuery
