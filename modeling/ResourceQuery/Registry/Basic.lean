/-
Registries: the resources that queries can be compiled from.

A registry holds the metadata of each resource in registration order, and the page sizes its fragments were written
with. Registering a name again replaces its metadata and keeps its place.
-/
import ResourceQuery.OrderedMap
import ResourceQuery.Resource

namespace ResourceQuery

/-- page sizes written into fragment texts -/
structure PageLimits where
  /-- for ordinary connections -/
  page : UInt32 := 100
  /-- for searches whose nodes hold further connections -/
  nested : UInt32 := 25
deriving DecidableEq, Repr, Inhabited

/-- metadata by resource name, in registration order -/
structure Registry where
  limits : PageLimits := {}
  entries : OrderedMap ResourceId Metadata := ∅
deriving DecidableEq, Repr, Inhabited

namespace Registry

/-! ## Building -/

/-- records the page sizes, in place of those recorded before -/
def withLimits (r : Registry) (limits : PageLimits) : Registry := { r with limits }

/-- adds a resource, or replaces the metadata of one that is there -/
def register (r : Registry) (id : ResourceId) (metadata : Metadata) : Registry :=
  { r with entries := r.entries.insert id metadata }

def ofList (limits : PageLimits) (resources : List (ResourceId × Metadata)) : Registry :=
  resources.foldl (fun r e => r.register e.1 e.2) { limits }

theorem entries_foldl_register (es : List (ResourceId × Metadata)) (r : Registry) :
    (es.foldl (fun r e => r.register e.1 e.2) r).entries = es.foldl (fun m e => m.insert e.1 e.2) r.entries := by
  induction es generalizing r with
  | nil => rfl
  | cons e es ih => exact ih _

theorem limits_foldl_register (es : List (ResourceId × Metadata)) (r : Registry) :
    (es.foldl (fun r e => r.register e.1 e.2) r).limits = r.limits := by
  induction es generalizing r with
  | nil => rfl
  | cons e es ih => exact ih _

/-- a registry of resources with distinct names has them as its entries -/
theorem entries_ofList (limits : PageLimits) {es : List (ResourceId × Metadata)} (h : (es.map Prod.fst).Nodup) :
    (ofList limits es).entries.entries = es := by
  rw [ofList, entries_foldl_register]
  exact OrderedMap.entries_ofList h

/-- a registry is the one of its limits and its entries -/
theorem ofList_entries (r : Registry) : ofList r.limits r.entries.entries = r := by
  have hentries : (ofList r.limits r.entries.entries).entries = r.entries :=
    OrderedMap.ext_entries (entries_ofList r.limits r.entries.nodup)
  have hlimits : (ofList r.limits r.entries.entries).limits = r.limits := limits_foldl_register _ _
  calc ofList r.limits r.entries.entries
      = ⟨(ofList r.limits r.entries.entries).limits, (ofList r.limits r.entries.entries).entries⟩ := rfl
    _ = r := by rw [hentries, hlimits]

/-! ## Look-ups -/

def get? (r : Registry) (id : ResourceId) : Option Metadata := r.entries.get? id

def contains (r : Registry) (id : ResourceId) : Bool := r.entries.contains id

/-- names in registration order -/
def ids (r : Registry) : List ResourceId := r.entries.keys

def size (r : Registry) : Nat := r.entries.size

def isEmpty (r : Registry) : Bool := r.entries.isEmpty

/-- the parent link of a registered resource -/
def parent? (r : Registry) (id : ResourceId) : Option ResourceId := (r.get? id).bind Metadata.parent

/-- the child links of a registered resource -/
def childrenOf (r : Registry) (id : ResourceId) : List ResourceId := ((r.get? id).map Metadata.children).getD []

/-- Two registries are equivalent when they have the same page sizes and the same metadata for every name, in whatever
order the names were registered. -/
def equivalent (a b : Registry) : Bool := a.limits == b.limits && a.entries.sameEntries b.entries

theorem equivalent_iff {a b : Registry} :
    a.equivalent b = true ↔ a.limits = b.limits ∧ ∀ id, a.get? id = b.get? id := by
  rw [equivalent, Bool.and_eq_true, beq_iff_eq, OrderedMap.sameEntries_iff]
  rfl

theorem get?_register (r : Registry) (id id' : ResourceId) (m : Metadata) :
    (r.register id m).get? id' = if id = id' then some m else r.get? id' :=
  OrderedMap.get?_insert r.entries id id' m

theorem contains_iff {r : Registry} {id : ResourceId} : r.contains id = true ↔ id ∈ r.ids :=
  OrderedMap.contains_iff

theorem mem_ids_of_get? {r : Registry} {id : ResourceId} {m : Metadata} (h : r.get? id = some m) : id ∈ r.ids :=
  OrderedMap.mem_keys_of_get? h

theorem mem_ids_iff {r : Registry} {id : ResourceId} : id ∈ r.ids ↔ ∃ m, r.get? id = some m := by
  rw [← contains_iff]
  exact Option.isSome_iff_exists

theorem get?_eq_none_iff {r : Registry} {id : ResourceId} : r.get? id = none ↔ id ∉ r.ids :=
  OrderedMap.get?_eq_none_iff

theorem parent?_of_get? {r : Registry} {id : ResourceId} {m : Metadata} (h : r.get? id = some m) :
    r.parent? id = m.parent := by
  simp [parent?, h]

theorem mem_ids_of_parent? {r : Registry} {id p : ResourceId} (h : r.parent? id = some p) : id ∈ r.ids := by
  obtain ⟨m, hm, _⟩ := Option.bind_eq_some_iff.1 h
  exact mem_ids_of_get? hm

theorem childrenOf_eq_nil {r : Registry} {id : ResourceId} (h : id ∉ r.ids) : r.childrenOf id = [] := by
  simp [childrenOf, get?, OrderedMap.get?_eq_none_iff.2 h]

/-! ## Names not yet visited

A walk along links ends because each step visits a registered name for the first time. -/

/-- the number of registered names outside `visited` -/
def unvisited (r : Registry) (visited : List ResourceId) : Nat := (r.ids.filter (· ∉ visited)).length

theorem unvisited_append_le (r : Registry) (visited : List ResourceId) (id : ResourceId) :
    r.unvisited (visited ++ [id]) ≤ r.unvisited visited := by
  unfold unvisited
  rw [← List.countP_eq_length_filter, ← List.countP_eq_length_filter]
  exact List.countP_mono_left fun x _ h => by simp_all

theorem length_filter_append_lt {xs visited : List ResourceId} {id : ResourceId} (h : id ∈ xs) (hv : id ∉ visited) :
    (xs.filter (· ∉ visited ++ [id])).length < (xs.filter (· ∉ visited)).length := by
  rw [← List.countP_eq_length_filter, ← List.countP_eq_length_filter]
  have le : ∀ ys : List ResourceId, ys.countP (· ∉ visited ++ [id]) ≤ ys.countP (· ∉ visited) := fun ys =>
    List.countP_mono_left fun x _ h => by simp_all
  induction xs with
  | nil => simp at h
  | cons x xs ih =>
    rw [List.countP_cons, List.countP_cons]
    by_cases hx : x = id
    · have := le xs
      simp [hx, hv] at this ⊢
      omega
    · have := ih ((List.mem_cons.1 h).resolve_left (Ne.symm hx))
      by_cases hxv : x ∈ visited <;> simp [hx, hxv] at this ⊢ <;> omega

theorem unvisited_append_lt {r : Registry} {visited : List ResourceId} {id : ResourceId} (h : id ∈ r.ids)
    (hv : id ∉ visited) : r.unvisited (visited ++ [id]) < r.unvisited visited :=
  length_filter_append_lt h hv

end Registry

end ResourceQuery
