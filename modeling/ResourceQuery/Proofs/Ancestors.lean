/-
The ancestors of a name, exactly.

A name has one parent link at most, so from every name there is just one way up. It ends above a name with nothing
above it, or it comes back; in the first case its names are the ancestors, in the second the walk is refused where it
closes. Either way each registered name is left only once, so a walk is never longer than the registry has names.

Results:
- `WholeWalk.unique`, `ClosedWalk.unique`: the walks that the climb can answer with are determined by their start.
- `parentChain_eq_ok_iff`, `parentChain_eq_error_iff`: the climb answers with exactly these.
- `parentChain_eq_cons`: the ancestors of a name with a parent are the parent and the ancestors of the parent.
- `parentChain_exact`: these together, with the lengths, for every registry and name.
-/
import ResourceQuery.Proofs.Walks

namespace ResourceQuery

namespace Registry

variable {r : Registry} {id : ResourceId}

/-! ## Ancestors -/

/-- nothing is above the name: it is not registered, or it has no parent -/
def Topmost (r : Registry) (id : ResourceId) : Prop := id ∉ r.ids ∨ ∃ m, r.get? id = some m ∧ m.parent = none

/-- The successive parents of a name, nearest first, up to one with nothing above it. If there are none, nothing is
above the name itself. -/
structure Ancestors (r : Registry) (id : ResourceId) (chain : List ResourceId) : Prop where
  linked : r.ParentWalk (id :: chain)
  nodup : chain.Nodup
  proper : id ∉ chain
  topmost : r.Topmost (chain.getLast?.getD id)

theorem topmost_iff : r.Topmost id ↔ r.parent? id = none := by
  unfold Topmost parent?
  cases hget : r.get? id with
  | none => simp [get?_eq_none_iff.1 hget]
  | some m => simp [mem_ids_of_get? hget]

/-- the ancestors are the whole walk without its start -/
theorem ancestors_iff_wholeWalk {chain : List ResourceId} : r.Ancestors id chain ↔ r.WholeWalk id (id :: chain) := by
  have hlast : (id :: chain).getLast? = some (chain.getLast?.getD id) := List.getLast?_cons
  constructor
  · intro h
    refine ⟨rfl, h.linked, List.nodup_cons.2 ⟨h.proper, h.nodup⟩, ?_⟩
    rw [hlast]
    rintro a ⟨⟩
    exact topmost_iff.1 h.topmost
  · intro h
    obtain ⟨hproper, hnodup⟩ := List.nodup_cons.1 h.nodup
    exact ⟨h.walk, hnodup, hproper, topmost_iff.2 (h.last _ hlast)⟩

/-! ## One way up -/

theorem WholeWalk.unique {p q : List ResourceId} (hp : r.WholeWalk id p) (hq : r.WholeWalk id q) : p = q := by
  have hpq : p <+: q := hq.prefix_of_head hp.walk hp.head
  have hqp : q <+: p := hp.prefix_of_head hq.walk hq.head
  exact hpq.eq_of_length_le hqp.length_le

/-- a walk closes only at its end, so none that closes is the start of a longer one -/
theorem ClosedWalk.eq_of_prefix {p q : List ResourceId} (hp : r.ClosedWalk id p) (hq : r.ClosedWalk id q)
    (h : p <+: q) : p = q := by
  obtain ⟨passed, again, rfl, hnodup, -⟩ := hq.closed
  rcases List.prefix_concat_iff.1 h with heq | hpassed
  · exact heq
  · exact absurd (hnodup.sublist hpassed.sublist) hp.not_nodup

theorem ClosedWalk.unique {p q : List ResourceId} (hp : r.ClosedWalk id p) (hq : r.ClosedWalk id q) : p = q := by
  rcases hp.walk.prefix_or_prefix hq.walk (hp.head.trans hq.head.symm) with h | h
  · exact hp.eq_of_prefix hq h
  · exact (hq.eq_of_prefix hp h).symm

/-- a whole walk leaves no way back -/
theorem WholeWalk.not_closedWalk {p q : List ResourceId} (hp : r.WholeWalk id p) (hq : r.ClosedWalk id q) : False := by
  have hprefix := hp.prefix_of_head hq.walk hq.head
  exact hq.not_nodup (hp.nodup.sublist hprefix.sublist)

theorem parentChain_eq_ok_iff {chain : List ResourceId} : r.parentChain id = .ok chain ↔ r.Ancestors id chain := by
  rw [ancestors_iff_wholeWalk]
  rcases r.parentChain_cases id with ⟨path, hok, hwhole⟩ | ⟨path, herror, hclosed⟩
  · obtain ⟨above, rfl⟩ := List.head?_eq_some_iff.1 hwhole.head
    rw [hok, List.tail_cons, Except.ok.injEq]
    constructor
    · rintro rfl
      exact hwhole
    · intro h
      exact List.tail_eq_of_cons_eq (hwhole.unique h)
  · rw [herror]
    constructor
    · intro h
      cases h
    · intro h
      exact (h.not_closedWalk hclosed).elim

theorem parentChain_eq_error_iff {cycle : List ResourceId} :
    r.parentChain id = .error cycle ↔ r.ClosedWalk id cycle := by
  rcases r.parentChain_cases id with ⟨path, hok, hwhole⟩ | ⟨path, herror, hclosed⟩
  · rw [hok]
    constructor
    · intro h
      cases h
    · intro h
      exact (hwhole.not_closedWalk h).elim
  · rw [herror, Except.error.injEq]
    constructor
    · rintro rfl
      exact hclosed
    · intro h
      exact hclosed.unique h

theorem exists_parentChain_iff : (∃ chain, r.parentChain id = .ok chain) ↔ ¬ r.Revisits id := by
  rw [revisits_iff_parentChain_error]
  cases r.parentChain id <;> simp

/-- the ancestors of a name with a parent are the parent and the ancestors of the parent -/
theorem parentChain_eq_cons {parent : ResourceId} {chain : List ResourceId} (hparent : r.parent? id = some parent)
    (h : r.parentChain id = .ok chain) : ∃ above, r.parentChain parent = .ok above ∧ chain = parent :: above := by
  have hchain := parentChain_eq_ok_iff.1 h
  cases chain with
  | nil =>
    have hnone : r.parent? id = none := topmost_iff.1 hchain.topmost
    rw [hparent] at hnone
    cases hnone
  | cons next above =>
    obtain ⟨hnext, hlinked⟩ := List.isChain_cons_cons.1 hchain.linked
    obtain rfl : parent = next := Option.some.inj (hparent.symm.trans hnext)
    obtain ⟨hproper, hnodup⟩ := List.nodup_cons.1 hchain.nodup
    refine ⟨above, parentChain_eq_ok_iff.2 ⟨hlinked, hnodup, hproper, ?_⟩, rfl⟩
    have htop := hchain.topmost
    rwa [List.getLast?_cons] at htop

/-! ## The length of a walk -/

/-- Each name that a walk leaves is registered, so a walk that leaves none twice is no longer than the registry. -/
theorem ParentWalk.length_le {passed : List ResourceId} {last : ResourceId} (h : r.ParentWalk (passed ++ [last]))
    (hn : passed.Nodup) : passed.length ≤ r.size := by
  have hids : passed ⊆ r.ids := by
    intro a ha
    obtain ⟨before, after, rfl⟩ := List.append_of_mem ha
    have hfrom : r.ParentWalk (a :: (after ++ [last])) := by
      refine List.IsChain.suffix h ⟨before, ?_⟩
      simp
    obtain ⟨hnext, -⟩ := List.isChain_cons.1 hfrom
    cases after with
    | nil => exact mem_ids_of_parent? (hnext last rfl)
    | cons next after => exact mem_ids_of_parent? (hnext next rfl)
  calc passed.length
      ≤ r.ids.length := hn.length_le_of_subset hids
    _ = r.size := r.entries.length_keys

theorem Ancestors.length_le {chain : List ResourceId} (h : r.Ancestors id chain) : chain.length ≤ r.size := by
  have hsplit : (id :: chain).dropLast ++ [(id :: chain).getLast (List.cons_ne_nil _ _)] = id :: chain :=
    List.dropLast_append_getLast _
  have hnodup : (id :: chain).Nodup := List.nodup_cons.2 ⟨h.proper, h.nodup⟩
  have hle := ParentWalk.length_le (hsplit ▸ h.linked) (hnodup.sublist (List.dropLast_sublist _))
  rwa [List.length_dropLast, List.length_cons, Nat.add_sub_cancel] at hle

theorem ClosedWalk.length_le {cycle : List ResourceId} (h : r.ClosedWalk id cycle) : cycle.length ≤ r.size + 1 := by
  obtain ⟨passed, again, rfl, hnodup, -⟩ := h.closed
  rw [List.length_append, List.length_singleton]
  exact Nat.succ_le_succ (h.walk.length_le hnodup)

end Registry

/-! ## Main result -/

/-- **The ancestors are exact.** On every registry, cyclic or not, and for every name, registered or not, there is an
answer: the ancestors exactly if the way up never comes back, and otherwise the walk from the name that closes on one it
has passed. The climb leaves no registered name twice, which bounds either answer. -/
theorem parentChain_exact (r : Registry) (id : ResourceId) :
    ((∃ chain, r.parentChain id = .ok chain) ↔ ¬ r.Revisits id) ∧
    ((∃ cycle, r.parentChain id = .error cycle) ↔ r.Revisits id) ∧
    (∀ chain, r.parentChain id = .ok chain ↔ r.Ancestors id chain) ∧
    (∀ cycle, r.parentChain id = .error cycle ↔ r.ClosedWalk id cycle) ∧
    (∀ chain, r.parentChain id = .ok chain → chain.length ≤ r.size) ∧
    (∀ cycle, r.parentChain id = .error cycle → cycle.length ≤ r.size + 1) ∧
    ∀ parent, r.parent? id = some parent → ∀ chain, r.parentChain id = .ok chain →
      ∃ above, r.parentChain parent = .ok above ∧ chain = parent :: above := by
  refine ⟨Registry.exists_parentChain_iff, Registry.revisits_iff_parentChain_error.symm,
    fun _ => Registry.parentChain_eq_ok_iff, fun _ => Registry.parentChain_eq_error_iff, ?_, ?_, ?_⟩
  · intro chain h
    exact (Registry.parentChain_eq_ok_iff.1 h).length_le
  · intro cycle h
    exact (Registry.parentChain_eq_error_iff.1 h).length_le
  · intro parent hparent chain h
    exact Registry.parentChain_eq_cons hparent h

/-- parent links that run into a ring, that point back at once, and that leave the registry -/
def tangledRegistry : Registry := .ofList {} [
  (⟨"lane"⟩, { fragment := .leaf "lane", parent := some ⟨"ring"⟩ }),
  (⟨"ring"⟩, { fragment := .leaf "ring", parent := some ⟨"back"⟩ }),
  (⟨"back"⟩, { fragment := .leaf "back", parent := some ⟨"ring"⟩ }),
  (⟨"self"⟩, { fragment := .leaf "self", parent := some ⟨"self"⟩ }),
  (⟨"stray"⟩, { fragment := .leaf "stray", parent := some ⟨"ghost"⟩ })]

/-- The lane into the ring is part of the refusal, a name that is its own parent closes at once, and a parent that is
not registered is the last ancestor, with none of its own. -/
theorem tangled_ancestors :
    tangledRegistry.ClosedWalk ⟨"lane"⟩ [⟨"lane"⟩, ⟨"ring"⟩, ⟨"back"⟩, ⟨"ring"⟩] ∧
    tangledRegistry.ClosedWalk ⟨"self"⟩ [⟨"self"⟩, ⟨"self"⟩] ∧
    tangledRegistry.Ancestors ⟨"stray"⟩ [⟨"ghost"⟩] ∧ ¬ tangledRegistry.Revisits ⟨"stray"⟩ ∧
    (tangledRegistry.parent? ⟨"stray"⟩ = some ⟨"ghost"⟩ ∧ tangledRegistry.parentChain ⟨"stray"⟩ = .ok [⟨"ghost"⟩] ∧
      ∃ above, tangledRegistry.parentChain ⟨"ghost"⟩ = .ok above ∧ [(⟨"ghost"⟩ : ResourceId)] = ⟨"ghost"⟩ :: above) := by
  have hlane : tangledRegistry.parentChain ⟨"lane"⟩ = .error [⟨"lane"⟩, ⟨"ring"⟩, ⟨"back"⟩, ⟨"ring"⟩] := by
    decide +kernel
  have hself : tangledRegistry.parentChain ⟨"self"⟩ = .error [⟨"self"⟩, ⟨"self"⟩] := by decide +kernel
  have hstray : tangledRegistry.parentChain ⟨"stray"⟩ = .ok [⟨"ghost"⟩] := by decide +kernel
  have hparent : tangledRegistry.parent? ⟨"stray"⟩ = some ⟨"ghost"⟩ := by decide +kernel
  obtain ⟨-, -, -, hclosed, -⟩ := parentChain_exact tangledRegistry ⟨"lane"⟩
  obtain ⟨-, -, -, hclosed', -⟩ := parentChain_exact tangledRegistry ⟨"self"⟩
  obtain ⟨hok, -, hancestors, -, -, -, habove⟩ := parentChain_exact tangledRegistry ⟨"stray"⟩
  refine ⟨(hclosed _).1 hlane, (hclosed' _).1 hself, (hancestors _).1 hstray, hok.1 ⟨_, hstray⟩, hparent, hstray, ?_⟩
  exact habove _ hparent _ hstray

end ResourceQuery
