/-
The ancestors of a resource.

`parentChain` follows parent links from a name, registered or not, until it reaches a name with no parent link, or one
that the walk has already passed. It ends on every registry: each step leaves a registered name for the first time, so
the number of registered names not yet left goes down.
-/
import ResourceQuery.Registry.Basic

namespace ResourceQuery.Registry

/-- The walk along parent links, at `id` after having left the names `visited` in that order. It gives the whole path,
or a path whose last name is one it held before. -/
def climb (r : Registry) (visited : List ResourceId) (id : ResourceId) : Except (List ResourceId) (List ResourceId) :=
  if id ∈ visited then
    .error (visited ++ [id])
  else
    match _h : r.parent? id with
    | none => .ok (visited ++ [id])
    | some parent => r.climb (visited ++ [id]) parent
termination_by r.unvisited visited
decreasing_by exact unvisited_append_lt (mem_ids_of_parent? _h) (by assumption)

/-- The ancestors of a name, nearest first. If its parent links run into a cycle: the names passed, starting with `id`
itself and closed on the repeated one. -/
def parentChain (r : Registry) (id : ResourceId) : Except (List ResourceId) (List ResourceId) :=
  (r.climb [] id).map List.tail

theorem climb_of_mem (r : Registry) {visited : List ResourceId} {id : ResourceId} (h : id ∈ visited) :
    r.climb visited id = .error (visited ++ [id]) := by
  rw [climb, if_pos h]

theorem climb_of_none (r : Registry) {visited : List ResourceId} {id : ResourceId} (h : id ∉ visited)
    (hp : r.parent? id = none) : r.climb visited id = .ok (visited ++ [id]) := by
  rw [climb, if_neg h]
  split
  · rfl
  · simp_all

theorem climb_of_some (r : Registry) {visited : List ResourceId} {id parent : ResourceId} (h : id ∉ visited)
    (hp : r.parent? id = some parent) : r.climb visited id = r.climb (visited ++ [id]) parent := by
  rw [climb, if_neg h]
  split
  · simp_all
  · rename_i q hq
    rw [hp] at hq
    cases hq
    rfl

end ResourceQuery.Registry
