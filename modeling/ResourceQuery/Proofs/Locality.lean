/-
What a request reads of a registry.

To compile a request, only some names are looked up: the root, the requested resources, and all that is above these
along parent links. Child links are followed to requested resources only. So two registries that agree on the names read
give the same answer or the same error, whatever else they hold and in whatever order.

Results:
- `climb_congr`, `place_congr`, `draft_congr`: registries that agree on the names read give the same walk, the same step
  and the same draft.
- `compile_reads_only`: and the same answer; in particular the order of the entries, the page sizes on record and
  entries that are not read have no influence.
-/
import ResourceQuery.Proofs.Failure

namespace ResourceQuery

variable {r r' : Registry} {q : Request}

/-! ## The names read -/

namespace Request

/-- the names that compiling a request looks up -/
inductive Reads (q : Request) (r : Registry) : ResourceId → Prop
  | root : Reads q r q.root
  | requested {id : ResourceId} (h : id ∈ q.ids) : Reads q r id
  | parent {id p : ResourceId} (child : Reads q r id) (h : r.parent? id = some p) : Reads q r p

/-- the second registry knows the same as the first of all names read -/
def AgreeOnReads (q : Request) (r r' : Registry) : Prop := ∀ id, q.Reads r id → r.get? id = r'.get? id

theorem reads_of_mem_wanted {id : ResourceId} (h : id ∈ q.wanted) : q.Reads r id :=
  .requested (mem_wanted_iff.1 h).1

end Request

open Request

/-! ## Placing -/

namespace Registry

theorem parent?_congr {id : ResourceId} (h : r.get? id = r'.get? id) : r.parent? id = r'.parent? id :=
  congrArg (Option.bind · Metadata.parent) h

theorem contains_congr {id : ResourceId} (h : r.get? id = r'.get? id) : r.contains id = r'.contains id :=
  congrArg Option.isSome h

/-- a walk along parent links reads no more than its start and what is above it -/
theorem climb_congr (h : q.AgreeOnReads r r') {id : ResourceId} (hid : q.Reads r id) (visited : List ResourceId) :
    r.climb visited id = r'.climb visited id := by
  induction visited, id using climb.induct r with
  | case1 visited id hmem => rw [climb_of_mem r hmem, climb_of_mem r' hmem]
  | case2 visited id hmem hp =>
    have hp' : r'.parent? id = none := (parent?_congr (h id hid)).symm.trans hp
    rw [climb_of_none r hmem hp, climb_of_none r' hmem hp']
  | case3 visited id hmem parent hp ih =>
    have hp' : r'.parent? id = some parent := (parent?_congr (h id hid)).symm.trans hp
    rw [climb_of_some r hmem hp, climb_of_some r' hmem hp']
    exact ih (.parent hid hp)

theorem checkParents_congr (h : q.AgreeOnReads r r') {id : ResourceId} (hid : q.Reads r id) :
    r.checkParents id = r'.checkParents id := by
  unfold checkParents parentChain
  rw [climb_congr h hid]

theorem carrier?_congr (h : q.AgreeOnReads r r') {id : ResourceId} {m : Metadata} (hid : q.Reads r id)
    (hm : r.get? id = some m) : r.carrier? q.root q.wanted id m = r'.carrier? q.root q.wanted id m := by
  unfold carrier?
  cases hp : m.parent with
  | none => rfl
  | some p =>
    have hread : q.Reads r p := .parent hid ((parent?_of_get? hm).trans hp)
    simp only [h p hread]

/-- children are looked up only if they are requested -/
theorem selection_congr_of_agree (h : q.AgreeOnReads r r') (t : ResourceId) (m : Metadata) :
    r.selection q.wanted t m = r'.selection q.wanted t m := by
  unfold selection embeddable
  refine congrArg (Selection.mk t m) (List.filterMap_congr ?_)
  intro c hc
  have hw : c ∈ q.wanted := of_decide_eq_true (List.mem_filter.1 hc).2
  rw [h c (reads_of_mem_wanted hw)]

theorem place_congr (h : q.AgreeOnReads r r') {id : ResourceId} (hid : q.Reads r id) (d : Draft) :
    r.place q.root q.wanted d id = r'.place q.root q.wanted d id := by
  unfold place
  rw [← h id hid, ← checkParents_congr h hid]
  cases hm : r.get? id with
  | none => rfl
  | some m =>
    simp only [← carrier?_congr h hid hm, selection_congr_of_agree h]

end Registry

namespace Request

/-! ## Drafts -/

theorem draft_congr (h : q.AgreeOnReads r r') (m : Metadata) : q.draft r m = q.draft r' m := by
  have hfold : ∀ d, q.wanted.foldlM (r.place q.root q.wanted) d = q.wanted.foldlM (r'.place q.root q.wanted) d :=
    foldlM_congr_of_mem fun id hid => Registry.place_congr h (reads_of_mem_wanted hid)
  unfold draft
  simp only [Registry.checkParents_congr h .root, hfold]

theorem skipped_congr (h : q.AgreeOnReads r r') (d : Draft) : q.skipped r d = q.skipped r' d := by
  unfold skipped
  refine List.map_congr_left ?_
  intro id hid
  have hw : id ∈ q.wanted := (List.mem_filter.1 hid).1
  rw [Registry.contains_congr (h id (reads_of_mem_wanted hw))]

theorem compile_congr (h : q.AgreeOnReads r r') : q.compile r = q.compile r' := by
  unfold compile
  rw [← h q.root .root]
  cases r.get? q.root with
  | none => rfl
  | some root => simp only [draft_congr h, skipped_congr h]

end Request

/-! ## Main result -/

/-- **What is read.** If two registries agree on the root, on what is requested, and on all that is above these along
parent links, then a request has the same answer or the same error in both. So it has in registries that are
equivalent; in registries with the same entries in another order; whatever page sizes are on record; and whatever is
registered under a name that is not read. -/
theorem compile_reads_only :
    (∀ (q : Request) (r r' : Registry), q.AgreeOnReads r r' → q.compile r = q.compile r') ∧
    (∀ (q : Request) (r r' : Registry), r.equivalent r' = true → q.compile r = q.compile r') ∧
    (∀ (q : Request) (r r' : Registry), r.entries.entries.Perm r'.entries.entries → q.compile r = q.compile r') ∧
    (∀ (q : Request) (r : Registry) (limits : PageLimits), q.compile r = q.compile (r.withLimits limits)) ∧
    ∀ (q : Request) (r : Registry) (id : ResourceId) (m : Metadata), ¬ q.Reads r id →
      q.compile r = q.compile (r.register id m) := by
  refine ⟨fun q r r' => Request.compile_congr, ?_, ?_, ?_, ?_⟩
  · intro q r r' h
    exact Request.compile_congr fun id _ => (Registry.equivalent_iff.1 h).2 id
  · intro q r r' h
    refine Request.compile_congr fun id _ => Option.ext fun m => ?_
    exact OrderedMap.get?_eq_some_iff.trans (h.mem_iff.trans OrderedMap.get?_eq_some_iff.symm)
  · intro q r limits
    exact Request.compile_congr fun id _ => rfl
  · intro q r id m hno
    refine Request.compile_congr fun id' hread => ?_
    have hne : id ≠ id' := fun e => hno (e ▸ hread)
    rw [Registry.get?_register, if_neg hne]

/-- a hub and a node alone, for other pages and in another order; the faulty registry has these two as well -/
def nodeRegistry : Registry := .ofList { page := 10 } [
  (⟨"node"⟩, { declarations := [⟨"id", "ID!"⟩], fragment := .leaf "node(id: $id)" }),
  (⟨"hub"⟩, { fragment := .nested "hub \x7b\n" "\x7d" })]

/-- the faulty registry with its last entry first -/
def faultyReversed : Registry := .ofList {} faultyRegistry.entries.entries.reverse

/-- On behalf of the node, the entries that are each other's parents are not read, nor is the one that conflicts with
the node. The conflict itself is found in whatever order its two sides are registered. -/
theorem node_read_alone :
    ((faultyRequest [⟨"node"⟩]).AgreeOnReads faultyRegistry nodeRegistry ∧
      (faultyRequest [⟨"node"⟩]).compile faultyRegistry = (faultyRequest [⟨"node"⟩]).compile nodeRegistry) ∧
    (¬ (faultyRequest [⟨"node"⟩]).Reads faultyRegistry ⟨"outer"⟩ ∧
      (faultyRequest [⟨"node"⟩]).compile faultyRegistry =
        (faultyRequest [⟨"node"⟩]).compile (faultyRegistry.register ⟨"outer"⟩ { fragment := .leaf "outer" })) ∧
    (faultyRegistry.equivalent faultyReversed = true ∧
      (faultyRequest [⟨"node"⟩, ⟨"user"⟩]).compile faultyRegistry =
        (faultyRequest [⟨"node"⟩, ⟨"user"⟩]).compile faultyReversed) ∧
    (faultyRegistry.entries.entries.Perm (faultyReversed.withLimits { page := 10 }).entries.entries ∧
      (faultyRequest [⟨"node"⟩, ⟨"user"⟩]).compile faultyRegistry =
        (faultyRequest [⟨"node"⟩, ⟨"user"⟩]).compile (faultyReversed.withLimits { page := 10 })) := by
  obtain ⟨hagreeing, hequivalent, hperm, -, hunread⟩ := compile_reads_only
  have hreads : ∀ id, (faultyRequest [⟨"node"⟩]).Reads faultyRegistry id → id = ⟨"hub"⟩ ∨ id = ⟨"node"⟩ := by
    intro id h
    induction h with
    | root => exact .inl rfl
    | requested h => exact .inr (List.mem_singleton.1 h)
    | parent _ hp ih =>
      -- neither the hub nor the node has a parent link
      rcases ih with rfl | rfl
      · cases hp
      · cases hp
  refine ⟨?_, ?_, ?_, ?_⟩
  · have hagree : (faultyRequest [⟨"node"⟩]).AgreeOnReads faultyRegistry nodeRegistry := by
      intro id h
      rcases hreads id h with rfl | rfl
      · decide
      · decide
    exact ⟨hagree, hagreeing _ _ _ hagree⟩
  · have houter : ¬ (faultyRequest [⟨"node"⟩]).Reads faultyRegistry ⟨"outer"⟩ := by
      intro h
      exact absurd (hreads _ h) (by decide)
    exact ⟨houter, hunread _ _ _ _ houter⟩
  · have hsame : faultyRegistry.equivalent faultyReversed = true := by decide +kernel
    exact ⟨hsame, hequivalent _ _ _ hsame⟩
  · have hentries : faultyReversed.entries.entries = faultyRegistry.entries.entries.reverse :=
      Registry.entries_ofList {} (by decide)
    have hreversed :
        faultyRegistry.entries.entries.Perm (faultyReversed.withLimits { page := 10 }).entries.entries := by
      rw [Registry.withLimits, hentries]
      exact (List.reverse_perm _).symm
    exact ⟨hreversed, hperm _ _ _ hreversed⟩

end ResourceQuery
