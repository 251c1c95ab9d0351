/-
Walks along the links of a registry.

A walk is a list of names, each linked to the next. A name has at most one parent link, so the walks along parent links
from a name are the prefixes of one of them: either it ends at a name with no parent link, or it comes back to a name
it has passed. A name can have many child links, and a search through them ends early only with a closed walk.

Results:
- `parentChain_cases`: the ancestors are the whole walk without its start, or a walk that closes on its last name.
- `revisits_iff_parentChain_error`: a walk along parent links comes back exactly if the ancestors are refused.
- `childCycle_of_explore`: the search through child links refuses with a walk from a name back to itself.
- `nodup_of_rank`: no walk comes back along links that all go down in some rank.
-/
import Mathlib.Data.List.Chain
import Mathlib.Data.List.Infix
import Mathlib.Data.List.Nodup
import Mathlib.Data.List.TakeWhile
import ResourceQuery.Registry.Validity

namespace ResourceQuery

theorem isChain_concat {α : Type} {R : α → α → Prop} {xs : List α} {a b : α} (h : (xs ++ [a]).IsChain R)
    (hab : R a b) : (xs ++ [a] ++ [b]).IsChain R := by
  refine List.isChain_append.2 ⟨h, List.isChain_singleton b, ?_⟩
  intro x hx y hy
  rw [List.getLast?_concat] at hx
  cases hx
  cases hy
  exact hab

/-- a chain along which a rank goes down has no repeats -/
theorem nodup_of_rank {α : Type} {R : α → α → Prop} (rank : α → Nat) (hrank : ∀ a b, R a b → rank b < rank a)
    {path : List α} (h : path.IsChain R) : path.Nodup := by
  have hdown : path.IsChain fun a b => rank b < rank a := h.imp hrank
  have : Trans (fun a b : α => rank b < rank a) (fun a b => rank b < rank a) fun a b => rank b < rank a :=
    ⟨fun hab hbc => Nat.lt_trans hbc hab⟩
  refine hdown.pairwise.imp ?_
  rintro a b hlt rfl
  exact Nat.lt_irrefl _ hlt

namespace Registry

variable {r : Registry}

/-! ## Parent links -/

/-- each name has the next one as its parent -/
def ParentWalk (r : Registry) (path : List ResourceId) : Prop := path.IsChain fun a b => r.parent? a = some b

/-- following parent links from `id` comes back to a name that was passed -/
def Revisits (r : Registry) (id : ResourceId) : Prop :=
  ∃ path, path.head? = some id ∧ r.ParentWalk path ∧ ¬ path.Nodup

/-- the walk from `id` to a name with no parent link, without repeats -/
structure WholeWalk (r : Registry) (id : ResourceId) (path : List ResourceId) : Prop where
  head : path.head? = some id
  walk : r.ParentWalk path
  nodup : path.Nodup
  last : ∀ a ∈ path.getLast?, r.parent? a = none

/-- the walk from `id` to the first name that it has passed before -/
structure ClosedWalk (r : Registry) (id : ResourceId) (path : List ResourceId) : Prop where
  head : path.head? = some id
  walk : r.ParentWalk path
  closed : ∃ passed again, path = passed ++ [again] ∧ passed.Nodup ∧ again ∈ passed

theorem ClosedWalk.not_nodup {id : ResourceId} {path : List ResourceId} (h : r.ClosedWalk id path) : ¬ path.Nodup := by
  obtain ⟨passed, again, rfl, -, hmem⟩ := h.closed
  intro hn
  exact (List.nodup_append.1 hn).2.2 again hmem again (List.mem_singleton_self _) rfl

/-- All that the climb can do, at `id` after having passed `visited` on a walk from `start`. -/
theorem climb_cases {visited : List ResourceId} {id start : ResourceId} (hstart : (visited ++ [id]).head? = some start)
    (hwalk : r.ParentWalk (visited ++ [id])) (hn : visited.Nodup) :
    (∃ path, r.climb visited id = .ok path ∧ r.WholeWalk start path) ∨
      ∃ path, r.climb visited id = .error path ∧ r.ClosedWalk start path := by
  induction visited, id using climb.induct r with
  | case1 visited id hmem =>
    exact .inr ⟨_, climb_of_mem r hmem, hstart, hwalk, visited, id, rfl, hn, hmem⟩
  | case2 visited id hmem hp =>
    refine .inl ⟨_, climb_of_none r hmem hp, hstart, hwalk, ?_, ?_⟩
    · simpa using List.Nodup.concat hmem hn
    · intro a ha
      rw [List.getLast?_concat] at ha
      cases ha
      exact hp
  | case3 visited id hmem parent hp ih =>
    rw [climb_of_some r hmem hp]
    refine ih ?_ ?_ ?_
    · rw [List.head?_append, hstart]
      rfl
    · exact isChain_concat hwalk hp
    · simpa using List.Nodup.concat hmem hn

/-- The ancestors are the whole walk from a name, without the name; or they are refused with the walk that closes. -/
theorem parentChain_cases (r : Registry) (id : ResourceId) :
    (∃ path, r.parentChain id = .ok path.tail ∧ r.WholeWalk id path) ∨
      ∃ path, r.parentChain id = .error path ∧ r.ClosedWalk id path := by
  have hstart : ([] ++ [id]).head? = some id := rfl
  unfold parentChain
  rcases climb_cases hstart (List.isChain_singleton id : r.ParentWalk [id]) List.nodup_nil with
    ⟨path, hc, hw⟩ | ⟨path, hc, hw⟩
  · exact .inl ⟨path, by rw [hc]; rfl, hw⟩
  · exact .inr ⟨path, by rw [hc]; rfl, hw⟩

/-- a name has one parent link, so of two walks from it one continues the other -/
theorem ParentWalk.prefix_or_prefix {p q : List ResourceId} (hp : r.ParentWalk p) (hq : r.ParentWalk q)
    (h : p.head? = q.head?) : p <+: q ∨ q <+: p := by
  induction p generalizing q with
  | nil => exact .inl List.nil_prefix
  | cons a p ih =>
    cases q with
    | nil => cases h
    | cons b q =>
      cases h
      obtain ⟨hap, hp⟩ := List.isChain_cons.1 hp
      obtain ⟨haq, hq⟩ := List.isChain_cons.1 hq
      rw [List.cons_prefix_cons, List.cons_prefix_cons]
      cases p with
      | nil => exact .inl ⟨rfl, List.nil_prefix⟩
      | cons x p =>
        cases q with
        | nil => exact .inr ⟨rfl, List.nil_prefix⟩
        | cons y q =>
          have hxy : x = y := Option.some.inj ((hap x rfl).symm.trans (haq y rfl))
          rcases ih hp hq (congrArg some hxy) with h | h
          · exact .inl ⟨rfl, h⟩
          · exact .inr ⟨rfl, h⟩

/-- the whole walk cannot be continued -/
theorem WholeWalk.prefix_of_head {id : ResourceId} {path q : List ResourceId} (h : r.WholeWalk id path)
    (hq : r.ParentWalk q) (hhead : q.head? = some id) : q <+: path := by
  rcases hq.prefix_or_prefix h.walk (hhead.trans h.head.symm) with hpre | ⟨more, rfl⟩
  · exact hpre
  · cases more with
    | nil => simp
    | cons x more =>
      obtain ⟨-, -, hlink⟩ := List.isChain_append.1 hq
      have hne : path ≠ [] := by
        rintro rfl
        cases h.head
      have hlast := List.getLast?_eq_some_getLast hne
      have hnone := h.last _ hlast
      rw [hlink _ hlast x rfl] at hnone
      cases hnone

/-- a walk along parent links comes back exactly if the ancestors are refused -/
theorem revisits_iff_parentChain_error {id : ResourceId} :
    r.Revisits id ↔ ∃ path, r.parentChain id = .error path := by
  constructor
  · rintro ⟨q, hhead, hq, hrepeat⟩
    rcases r.parentChain_cases id with ⟨path, -, hwhole⟩ | ⟨path, hc, -⟩
    · have hpre := hwhole.prefix_of_head hq hhead
      exact absurd (hwhole.nodup.sublist hpre.sublist) hrepeat
    · exact ⟨path, hc⟩
  · rintro ⟨path, hc⟩
    rcases r.parentChain_cases id with ⟨p, hok, -⟩ | ⟨p, -, hclosed⟩
    · rw [hok] at hc
      cases hc
    · exact ⟨p, hclosed.head, hclosed.walk, hclosed.not_nodup⟩

/-- the refusal is the walk from the name that closes -/
theorem closedWalk_of_parentChain {id : ResourceId} {path : List ResourceId} (h : r.parentChain id = .error path) :
    r.ClosedWalk id path := by
  rcases r.parentChain_cases id with ⟨p, hok, -⟩ | ⟨p, herr, hclosed⟩
  · rw [hok] at h
    cases h
  · rw [herr] at h
    cases h
    exact hclosed

theorem Revisits.of_parent {id parent : ResourceId} (hp : r.parent? id = some parent) (h : r.Revisits parent) :
    r.Revisits id := by
  obtain ⟨path, hhead, hwalk, hrepeat⟩ := h
  refine ⟨id :: path, rfl, List.isChain_cons.2 ⟨?_, hwalk⟩, ?_⟩
  · intro next hnext
    rw [hhead] at hnext
    cases hnext
    exact hp
  · intro hn
    exact hrepeat (List.nodup_cons.1 hn).2

theorem not_revisits_of_rank (rank : ResourceId → Nat) (h : ∀ a b, r.parent? a = some b → rank b < rank a)
    (id : ResourceId) : ¬ r.Revisits id := by
  rintro ⟨path, -, hwalk, hrepeat⟩
  exact hrepeat (nodup_of_rank rank h hwalk)

/-! ## Child links -/

/-- each name declares the next one as a child -/
def ChildWalk (r : Registry) (path : List ResourceId) : Prop := path.IsChain fun a b => b ∈ r.childrenOf a

/-- a walk along child links from a name back to itself, with no other repeat -/
def ChildCycle (r : Registry) (cycle : List ResourceId) : Prop :=
  r.ChildWalk cycle ∧ ∃ id rest, cycle = id :: rest ++ [id] ∧ (id :: rest).Nodup

theorem ChildCycle.not_nodup {cycle : List ResourceId} (h : r.ChildCycle cycle) : ¬ cycle.Nodup := by
  obtain ⟨-, id, rest, rfl, -⟩ := h
  simp

/-- from a name on a walk, the rest of the walk and then the name again -/
theorem childCycle_of_mem {path : List ResourceId} {id : ResourceId} (hwalk : r.ChildWalk (path ++ [id]))
    (hn : path.Nodup) (hmem : id ∈ path) : r.ChildCycle (path.dropWhile (· ≠ id) ++ [id]) := by
  have hsuffix : path.dropWhile (· ≠ id) <:+ path := List.dropWhile_suffix _
  obtain ⟨passed, hpassed⟩ := hsuffix
  refine ⟨?_, ?_⟩
  · refine List.IsChain.suffix hwalk ⟨passed, ?_⟩
    rw [← List.append_assoc, hpassed]
  · cases hdrop : path.dropWhile (· ≠ id) with
    | nil =>
      have hall := List.dropWhile_eq_nil_iff.1 hdrop id hmem
      simp at hall
    | cons x rest =>
      have hx : x = id := by
        have hhead := List.head?_dropWhile_not (fun a => decide (a ≠ id)) path
        rw [hdrop] at hhead
        simpa using hhead
      subst hx
      refine ⟨x, rest, rfl, ?_⟩
      rw [← hdrop]
      exact hn.sublist (List.dropWhile_sublist _)

/-- The search through child links refuses with a closed walk, if `path` is a walk that each name to explore
continues. -/
theorem childCycle_of_explore {path done ids cycle : List ResourceId} (hn : path.Nodup)
    (hwalk : ∀ id ∈ ids, r.ChildWalk (path ++ [id])) (h : r.explore path done ids = .error cycle) :
    r.ChildCycle cycle := by
  induction path, done, ids using explore.induct r generalizing cycle with
  | case1 path done =>
    rw [explore] at h
    cases h
  | case2 path done id rest hdone ih =>
    rw [explore, if_pos hdone] at h
    exact ih hn (fun x hx => hwalk x (List.mem_cons_of_mem _ hx)) h
  | case3 path done id rest hdone hpath =>
    rw [explore, if_neg hdone, if_pos hpath] at h
    cases h
    exact childCycle_of_mem (hwalk id List.mem_cons_self) hn hpath
  | case4 path done id rest hdone hpath c hc ih =>
    rw [explore, if_neg hdone, if_neg hpath, hc] at h
    cases h
    refine ih ?_ ?_ hc
    · simpa using List.Nodup.concat hpath hn
    · intro child hchild
      exact isChain_concat (hwalk id List.mem_cons_self) hchild
  | case5 path done id rest hdone hpath done' hc ih₁ ih₂ =>
    rw [explore, if_neg hdone, if_neg hpath, hc] at h
    exact ih₂ hn (fun x hx => hwalk x (List.mem_cons_of_mem _ hx)) h

/-- A registry is valid if each link names a registered resource, only fragments with a slot have children, and some
rank goes down along parent links and some along child links. -/
theorem validate_eq_ok_of_rank (parentRank childRank : ResourceId → Nat)
    (hlinks : ∀ e ∈ r.entries.entries, r.linkDefect? e.1 e.2 = none)
    (hparents : ∀ a b, r.parent? a = some b → parentRank b < parentRank a)
    (hchildren : ∀ a b, b ∈ r.childrenOf a → childRank b < childRank a) : r.validate = .ok () := by
  refine validate_eq_ok_iff.2 ⟨hlinks, ?_, ?_⟩
  · intro id _
    unfold parentCycle?
    cases hc : r.parentChain id with
    | ok chain => rfl
    | error chain =>
      have hclosed := closedWalk_of_parentChain hc
      exact absurd (nodup_of_rank parentRank hparents hclosed.walk) hclosed.not_nodup
  · cases hexp : r.explore [] [] r.ids with
    | ok done => exact ⟨done, rfl⟩
    | error cycle =>
      have hcycle := childCycle_of_explore List.nodup_nil (fun id _ => List.isChain_singleton id) hexp
      exact absurd (nodup_of_rank childRank hchildren hcycle.1) hcycle.not_nodup

end Registry

end ResourceQuery
