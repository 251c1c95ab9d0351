/-
Resources that a query can select.

A resource has a name, the variables its selection uses, the text of the selection, and two independent kinds of links
to other resources by name: the one parent it is reached through, and the children it can embed. Links are names, so an
entry can be stated, stored and compared without the resources it points to.
-/

namespace ResourceQuery

/-! ## Names -/

/-- name of a resource that can be fetched -/
structure ResourceId where
  name : String
deriving DecidableEq, Repr, Inhabited

instance : ToString ResourceId := ⟨ResourceId.name⟩

instance : Ord ResourceId := ⟨fun a b => compare a.name b.name⟩

/-- names in order, with a separator between neighbours -/
def ResourceId.joined (separator : String) (ids : List ResourceId) : String :=
  separator.intercalate (ids.map ResourceId.name)

/-! ## Variables -/

/-- a declared variable: its name without the dollar sign, and its input type -/
structure Variable where
  name : String
  type : String
deriving DecidableEq, Repr, Inhabited

/-- the declaration as a query header writes it: `$name: Type` -/
def Variable.text (v : Variable) : String := "$" ++ v.name ++ ": " ++ v.type

instance : ToString Variable := ⟨Variable.text⟩

/-! ## Fragments -/

/-- the text of a selection, with or without a slot for selections below it -/
inductive Fragment where
  | leaf (text : String)
  /-- the slot is between `opening` and `closing` -/
  | nested (opening closing : String)
deriving DecidableEq, Repr, Inhabited

namespace Fragment

/-- The fragment around `children`, the text of the selections below it. The opening text is expected to end a line and
the closing text to start one, so children that are not empty get a line break of their own. A leaf drops them. -/
def render : Fragment → String → String
  | leaf text, _ => text
  | nested opening closing, children =>
    if children = "" then opening ++ closing else opening ++ children ++ "\n" ++ closing

def acceptsChildren : Fragment → Bool
  | leaf _ => false
  | nested _ _ => true

@[simp] theorem render_leaf (text children : String) : (leaf text).render children = text := rfl

theorem render_nested_empty (opening closing : String) : (nested opening closing).render "" = opening ++ closing := by
  simp [render]

theorem render_nested_of_ne {opening closing children : String} (h : children ≠ "") :
    (nested opening closing).render children = opening ++ children ++ "\n" ++ closing := by
  simp [render, h]

end Fragment

/-! ## Metadata -/

/-- all that is known of one resource besides its name -/
structure Metadata where
  /-- the variables that the selection uses, in declaration order -/
  declarations : List Variable := []
  fragment : Fragment
  /-- the resource it is reached through, if it is not reached on its own -/
  parent : Option ResourceId := none
  /-- the resources it can embed directly below itself, in the order they are written -/
  children : List ResourceId := []
  /-- the field it appears under in a response, where that is not its name -/
  alternateField : Option String := none
  /-- dotted path of its data in a response -/
  responsePath : Option String := none
deriving DecidableEq, Repr, Inhabited

namespace Metadata

/-- the field that a resource of this name appears under in a response -/
def fieldName (m : Metadata) (id : ResourceId) : String := m.alternateField.getD id.name

def declaresChild (m : Metadata) (id : ResourceId) : Bool := id ∈ m.children

/-- the children that the fragment has a slot for -/
def slots (m : Metadata) : List ResourceId := if m.fragment.acceptsChildren then m.children else []

theorem mem_slots {m : Metadata} {id : ResourceId} :
    id ∈ m.slots ↔ m.fragment.acceptsChildren = true ∧ id ∈ m.children := by
  unfold slots
  split <;> simp_all

end Metadata

end ResourceQuery
