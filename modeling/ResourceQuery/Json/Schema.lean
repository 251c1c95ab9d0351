/-
Registries and their parts in JSON.

Each type has a printer, which chooses one spelling, and a decoder, which accepts all of them.
-/
import ResourceQuery.Json.Basic
import ResourceQuery.Json.Decode
import ResourceQuery.Registry.Basic

namespace ResourceQuery

open Json (Decoder DecodeError Reading Record Field)

/-! ## Names -/

def ResourceId.toJson (id : ResourceId) : Json := .string id.name

def ResourceId.decode : Decoder ResourceId := fun r => ResourceId.mk <$> r.text

/-! ## Variables -/

def Variable.toJson (v : Variable) : Json := .object [("name", .string v.name), ("type", .string v.type)]

/-- a variable of which some fields are read -/
structure Variable.Slots where
  name : Option String := none
  type : Option String := none

def Variable.record : Record Variable.Slots Variable where
  label := "struct VariableDecl"
  fields := [
    .slot "name" false Reading.text Slots.name fun s x => { s with name := some x },
    .slot "type" false Reading.text Slots.type fun s x => { s with type := some x }]
  start := {}
  build s := do return ⟨← s.name, ← s.type⟩

def Variable.decode : Decoder Variable := Variable.record.decode

/-! ## Fragments -/

namespace Fragment

def toJson : Fragment → Json
  | leaf text => .object [("leaf", .string text)]
  | nested opening closing =>
    .object [("nested", .object [("open", .string opening), ("close", .string closing)])]

/-- a nested fragment of which some fields are read -/
structure Slots where
  opening : Option String := none
  closing : Option String := none

def nestedRecord : Record Slots Fragment where
  label := "struct variant Fragment::Nested"
  fields := [
    .slot "open" false Reading.text Slots.opening fun s x => { s with opening := some x },
    .slot "close" false Reading.text Slots.closing fun s x => { s with closing := some x }]
  start := {}
  build s := do return .nested (← s.opening) (← s.closing)

inductive Variant where
  | leaf
  | nested

def Variant.ofName (name : String) : Except DecodeError Variant :=
  match name with
  | "leaf" => .ok leaf
  | "nested" => .ok nested
  | _ => .error (.mismatch (.unknownVariant name))

/-- the content of a variant -/
def Variant.decode : Variant → Decoder Fragment
  | leaf => fun r => .leaf <$> r.text
  | nested => nestedRecord.decode

/-- what the content of a variant is called where it is missing -/
def Variant.content : Variant → String
  | leaf => "newtype variant"
  | nested => "struct variant"

/-- an object whose only member names the variant -/
def decode : Decoder Fragment
  | .object [] none => .error (.fault .malformed)
  | .object [] (some f) => .error (.fault f)
  | .object (m :: rest) fault => do
    let name ← Json.liftFault m.1.value
    let variant ← Variant.ofName name
    let fragment ← variant.decode m.2
    match rest, fault with
    | [], none => .ok fragment
    | [], some f => .error (.fault f)
    | _ :: _, _ => .error (.fault .malformed)
  | .string q => do
    let name ← Json.liftFault q.value
    let variant ← Variant.ofName name
    .error (.mismatch (.bareVariant variant.content))
  | .missing f => .error (.fault f)
  | _ => .error (.fault .malformed)

end Fragment

/-! ## Metadata -/

namespace Metadata

/-- links and names that are absent, and an empty list of children, are left out -/
def toJson (m : Metadata) : Json :=
  .object (
    [("variables", .array (m.declarations.map Variable.toJson)), ("fragment", m.fragment.toJson)] ++
    (m.parent.map fun parent => ("parent", parent.toJson)).toList ++
    (if m.children = [] then [] else [("children", .array (m.children.map ResourceId.toJson))]) ++
    (m.alternateField.map fun field => ("alternate_field", Json.string field)).toList ++
    (m.responsePath.map fun path => ("response_path", Json.string path)).toList)

/-- metadata of which some fields are read -/
structure Slots where
  declarations : Option (List Variable) := none
  fragment : Option Fragment := none
  parent : Option (Option ResourceId) := none
  children : Option (List ResourceId) := none
  alternateField : Option (Option String) := none
  responsePath : Option (Option String) := none

def record : Record Slots Metadata where
  label := "struct ResourceMetadata"
  fields := [
    .slot "variables" true (Reading.list Variable.decode) Slots.declarations
      fun s x => { s with declarations := some x },
    .slot "fragment" false Fragment.decode Slots.fragment fun s x => { s with fragment := some x },
    .slot "parent" true (Reading.optional ResourceId.decode) Slots.parent fun s x => { s with parent := some x },
    .slot "children" true (Reading.list ResourceId.decode) Slots.children fun s x => { s with children := some x },
    .slot "alternate_field" true (Reading.optional Reading.text) Slots.alternateField
      fun s x => { s with alternateField := some x },
    .slot "response_path" true (Reading.optional Reading.text) Slots.responsePath
      fun s x => { s with responsePath := some x }]
  start := {}
  build s := s.fragment.map fun fragment =>
    { declarations := s.declarations.getD []
      fragment
      parent := s.parent.getD none
      children := s.children.getD []
      alternateField := s.alternateField.getD none
      responsePath := s.responsePath.getD none }

def decode : Decoder Metadata := record.decode

end Metadata

/-! ## Page limits -/

namespace PageLimits

def members (l : PageLimits) : List (String × Json) :=
  [("pageLimit", .number l.page.toNat), ("nestedPageLimit", .number l.nested.toNat)]

def toJson (l : PageLimits) : Json := .object l.members

/-- limits of which some are read -/
structure Slots where
  page : Option UInt32 := none
  nested : Option UInt32 := none

def record : Record Slots PageLimits where
  label := "struct RegistryConfig"
  fields := [
    .slot "pageLimit" true Reading.limit Slots.page fun s x => { s with page := some x },
    .slot "nestedPageLimit" true Reading.limit Slots.nested fun s x => { s with nested := some x }]
  start := {}
  build s :=
    let standard : PageLimits := {}
    some ⟨s.page.getD standard.page, s.nested.getD standard.nested⟩

def decode : Decoder PageLimits := record.decode

/-- limits from a configuration text; what it leaves out keeps its usual value -/
def ofText (text : String) : Except DecodeError PageLimits := Json.decodeText decode text

end PageLimits

/-! ## Registries -/

namespace Registry

def toJson (r : Registry) : Json :=
  .object (r.limits.members ++ [("entries", .object (r.entries.entries.map fun e => (e.1.name, e.2.toJson)))])

/-- a registry of which some fields are read -/
structure Slots where
  page : Option UInt32 := none
  nested : Option UInt32 := none
  entries : Option (List (String × Metadata)) := none

def record : Record Slots Registry where
  label := "struct Registry"
  fields := [
    .slot "pageLimit" false Reading.limit Slots.page fun s x => { s with page := some x },
    .slot "nestedPageLimit" false Reading.limit Slots.nested fun s x => { s with nested := some x },
    .slot "entries" false (Reading.map Metadata.decode) Slots.entries fun s x => { s with entries := some x }]
  start := {}
  build s := do return .ofList ⟨← s.page, ← s.nested⟩ ((← s.entries).map fun e => (⟨e.1⟩, e.2))

def decode : Decoder Registry := record.decode

/-- A registry from a text. Of a repeated name the last metadata counts, at the place of the first. -/
def ofText (text : String) : Except DecodeError Registry := Json.decodeText decode text

end Registry

end ResourceQuery
