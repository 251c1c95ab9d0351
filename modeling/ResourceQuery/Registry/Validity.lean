/-
Well-formed registries.

In a well-formed registry every link names a registered resource, only fragments with a slot declare children, and
neither parent links nor child links run in a cycle. `validate` looks for the first defect: first among the links, entry
by entry in registration order, then among the parent chains, and last among the child links.

Child links are explored depth first. `explore` keeps the path from the start to the resource at hand, and the resources
whose descendants are all known to be free of cycles.
-/
import ResourceQuery.Registry.ParentChain

namespace ResourceQuery

/-- what is wrong with a registry -/
inductive Defect where
  | unknownParent (resource parent : ResourceId)
  | unknownChild (resource child : ResourceId)
  | leafWithChildren (resource : ResourceId)
  /-- a walk along parent links whose last name it held before -/
  | parentCycle (chain : List ResourceId)
  /-- a walk along child links from a name back to itself -/
  | childCycle (chain : List ResourceId)
deriving DecidableEq, Repr

def Defect.message : Defect → String
  | unknownParent resource parent => "`" ++ resource.name ++ "` names unregistered parent `" ++ parent.name ++ "`"
  | unknownChild resource child => "`" ++ resource.name ++ "` names unregistered child `" ++ child.name ++ "`"
  | leafWithChildren resource =>
    "`" ++ resource.name ++ "` declares children but its fragment has no slot for them"
  | parentCycle chain => "cyclic parent chain: " ++ ResourceId.joined " -> " chain
  | childCycle chain => "cyclic child links: " ++ ResourceId.joined " -> " chain

namespace Registry

/-! ## Links -/

/-- the first of an entry's links that is wrong: its parent, its children in order, then whether it may have any -/
def linkDefect? (r : Registry) (id : ResourceId) (m : Metadata) : Option Defect :=
  match m.parent.filter fun p => !r.contains p, m.children.find? fun c => !r.contains c with
  | some parent, _ => some (.unknownParent id parent)
  | none, some child => some (.unknownChild id child)
  | none, none =>
    if m.children ≠ [] ∧ m.fragment.acceptsChildren = false then some (.leafWithChildren id) else none

/-- an entry's links are right if they name registered resources, and if it has a slot for its children -/
theorem linkDefect?_eq_none_iff {r : Registry} {id : ResourceId} {m : Metadata} :
    r.linkDefect? id m = none ↔
      (∀ p ∈ m.parent, p ∈ r.ids) ∧ (∀ c ∈ m.children, c ∈ r.ids) ∧
        (m.children ≠ [] → m.fragment.acceptsChildren = true) := by
  have hparent : m.parent.filter (fun p => !r.contains p) = none ↔ ∀ p ∈ m.parent, p ∈ r.ids := by
    simp [Option.filter_eq_none_iff, contains_iff]
  have hchildren : m.children.find? (fun c => !r.contains c) = none ↔ ∀ c ∈ m.children, c ∈ r.ids := by
    simp [contains_iff]
  rw [← hparent, ← hchildren, linkDefect?]
  split
  · rename_i h
    simp [h]
  · rename_i hp hc
    simp [hc]
  · rename_i hp hc
    simp [hp, hc]

/-! ## Child cycles -/

/-- Explores the given names depth first. `path` is the walk that led here and `done` holds the names that reach no
cycle; the answer is `done` with all that was explored, or the cycle met first. -/
def explore (r : Registry) (path done : List ResourceId) :
    List ResourceId → Except (List ResourceId) (List ResourceId)
  | [] => .ok done
  | id :: rest =>
    if id ∈ done then
      r.explore path done rest
    else if id ∈ path then
      .error (path.dropWhile (· ≠ id) ++ [id])
    else
      match r.explore (path ++ [id]) done (r.childrenOf id) with
      | .error cycle => .error cycle
      | .ok done => r.explore path (done ++ [id]) rest
termination_by ids => (r.unvisited path, ids.length)
decreasing_by
  · exact Prod.Lex.right _ (by simp)
  · by_cases h : id ∈ r.ids
    · exact Prod.Lex.left _ _ (unvisited_append_lt h (by assumption))
    · rw [childrenOf_eq_nil h]
      rcases Nat.lt_or_eq_of_le (unvisited_append_le r path id) with lt | eq
      · exact Prod.Lex.left _ _ lt
      · rw [eq]
        exact Prod.Lex.right _ (by simp)
  · exact Prod.Lex.right _ (by simp)

/-! ## Validity -/

def parentCycle? (r : Registry) (id : ResourceId) : Option Defect :=
  match r.parentChain id with
  | .ok _ => none
  | .error chain => some (.parentCycle chain)

def childCycle? (r : Registry) : Option Defect :=
  match r.explore [] [] r.ids with
  | .ok _ => none
  | .error cycle => some (.childCycle cycle)

/-- the first defect: a wrong link, else a cycle of parents, else a cycle of children -/
def defect? (r : Registry) : Option Defect :=
  ((r.entries.entries.findSome? fun e => r.linkDefect? e.1 e.2).or (r.ids.findSome? r.parentCycle?)).or r.childCycle?

def validate (r : Registry) : Except Defect Unit :=
  match r.defect? with
  | none => .ok ()
  | some defect => .error defect

theorem childCycle?_eq_none_iff {r : Registry} :
    r.childCycle? = none ↔ ∃ done, r.explore [] [] r.ids = .ok done := by
  unfold childCycle?
  cases r.explore [] [] r.ids <;> simp

theorem validate_eq_ok_iff {r : Registry} :
    r.validate = .ok () ↔
      (∀ e ∈ r.entries.entries, r.linkDefect? e.1 e.2 = none) ∧ (∀ id ∈ r.ids, r.parentCycle? id = none) ∧
        ∃ done, r.explore [] [] r.ids = .ok done := by
  have hnone : r.validate = .ok () ↔ r.defect? = none := by
    unfold validate
    cases r.defect? <;> simp
  rw [hnone, defect?, Option.or_eq_none_iff, Option.or_eq_none_iff, List.findSome?_eq_none_iff,
    List.findSome?_eq_none_iff, childCycle?_eq_none_iff, and_assoc]

end Registry

end ResourceQuery
