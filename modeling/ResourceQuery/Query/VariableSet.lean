/-
The variables that a query declares.

A set of variables gives each name one type and keeps the order in which the names first came. A name may be offered
again with its type; offered with another type it is a conflict, which leaves the set as it is. Merging a list stops at
its first conflict and keeps what came before.
-/
import ResourceQuery.OrderedMap
import ResourceQuery.Resource

namespace ResourceQuery

/-- types by variable name, in first-seen order -/
structure VariableSet where
  types : OrderedMap String String := ∅
deriving DecidableEq, Repr, Inhabited

/-- one name with two types: the one in the set, and the one offered -/
structure Conflict where
  name : String
  first : String
  second : String
deriving DecidableEq, Repr

namespace VariableSet

def toList (s : VariableSet) : List Variable := s.types.entries.map fun e => ⟨e.1, e.2⟩

def size (s : VariableSet) : Nat := s.types.size

def isEmpty (s : VariableSet) : Bool := s.types.isEmpty

def contains (s : VariableSet) (name : String) : Bool := s.types.contains name

/-- the set with one more declaration, and whether its name is new -/
def insert (s : VariableSet) (v : Variable) : Except Conflict (VariableSet × Bool) :=
  match s.types.get? v.name with
  | none => .ok (⟨s.types.insert v.name v.type⟩, true)
  | some type => if type = v.type then .ok (s, false) else .error ⟨v.name, type, v.type⟩

/-- Merges declarations in order up to the first conflict. What was merged before the conflict stays. -/
def extend (s : VariableSet) : List Variable → VariableSet × Option Conflict
  | [] => (s, none)
  | v :: rest =>
    match s.insert v with
    | .ok (s, _) => s.extend rest
    | .error conflict => (s, some conflict)

/-- merges all declarations, or fails -/
def merge (s : VariableSet) (vs : List Variable) : Except Conflict VariableSet :=
  match s.extend vs with
  | (s, none) => .ok s
  | (_, some conflict) => .error conflict

/-- the same declarations, in whatever order they were added -/
def equivalent (a b : VariableSet) : Bool := a.types.sameEntries b.types

/-- the declarations as a query header lists them: `$a: A, $b: B` -/
def text (s : VariableSet) : String := ", ".intercalate (s.toList.map Variable.text)

instance : ToString VariableSet := ⟨text⟩

theorem extend_append (s : VariableSet) (as bs : List Variable) :
    s.extend (as ++ bs) =
      match s.extend as with
      | (s, none) => s.extend bs
      | (s, some conflict) => (s, some conflict) := by
  induction as generalizing s with
  | nil => rfl
  | cons a as ih =>
    simp only [List.cons_append, extend]
    split <;> simp [*]

theorem names_nodup (s : VariableSet) : (s.toList.map Variable.name).Nodup := by
  simpa [toList, Function.comp_def] using s.types.nodup

end VariableSet

end ResourceQuery
