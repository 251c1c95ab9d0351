/-
What a document covers, without regard to the order of placing.

Two sets of resources are said by the links of the registry alone. The top level has the requested resources that are
reached on their own or from the root, and the parents, registered but not requested, of requested resources. Embedded
are the requested resources that a member of the top level declares as children and has a slot for.

Results:
- `mem_selected_iff`, `mem_embedded_iff`: a draft selects and embeds exactly these.
- `compile_covers_request`: the resources of an answer are the root, the top level in the order of the first requests
  for it, and what is only embedded; all other requested resources are left out, each with its reason.
-/
import ResourceQuery.Proofs.Placement

namespace ResourceQuery

variable {r : Registry} {root : ResourceId} {wanted : List ResourceId} {q : Request} {d : Draft}

/-! ## Order-free sets -/

namespace Registry

/-- requested, and reached on its own or from the root -/
def Direct (r : Registry) (root : ResourceId) (wanted : List ResourceId) (t : ResourceId) : Prop :=
  t ∈ wanted ∧ t ∈ r.ids ∧ r.ReachedFrom root t

/-- registered but not requested, and the parent of something requested -/
def Promoted (r : Registry) (root : ResourceId) (wanted : List ResourceId) (p : ResourceId) : Prop :=
  p ∈ r.ids ∧ p ∉ wanted ∧ p ≠ root ∧ ∃ id ∈ wanted, r.parent? id = some p

def TopLevel (r : Registry) (root : ResourceId) (wanted : List ResourceId) (t : ResourceId) : Prop :=
  r.Direct root wanted t ∨ r.Promoted root wanted t

/-- requested, and a declared child of a member of the top level that has a slot for it -/
def Embedded (r : Registry) (root : ResourceId) (wanted : List ResourceId) (c : ResourceId) : Prop :=
  c ∈ wanted ∧ c ∈ r.ids ∧
    ∃ t ∈ r.ids, r.TopLevel root wanted t ∧ ∃ m ∈ r.get? t, m.fragment.acceptsChildren = true ∧ c ∈ m.children

instance (r : Registry) (root : ResourceId) (wanted : List ResourceId) (p : ResourceId) :
    Decidable (r.Promoted root wanted p) := by
  unfold Promoted; infer_instance

instance (r : Registry) (root : ResourceId) (wanted : List ResourceId) (t : ResourceId) :
    Decidable (r.TopLevel root wanted t) := by
  unfold TopLevel Direct; infer_instance

instance (r : Registry) (root : ResourceId) (wanted : List ResourceId) (c : ResourceId) :
    Decidable (r.Embedded root wanted c) := by
  unfold Embedded; infer_instance

/-- the place of the first requested resource that resolves to `t` -/
def firstFor (r : Registry) (root : ResourceId) (wanted : List ResourceId) (t : ResourceId) : Nat :=
  wanted.findIdx fun id => r.ResolvesTo root wanted id t

theorem topLevel_iff_resolvesTo {t : ResourceId} :
    r.TopLevel root wanted t ↔ ∃ id ∈ wanted, r.ResolvesTo root wanted id t := by
  constructor
  · rintro (⟨hw, ht, hp⟩ | ⟨ht, hw, hr, id, hid, hp⟩)
    · exact ⟨t, hw, ht, .inl ⟨rfl, hp⟩⟩
    · exact ⟨id, hid, mem_ids_of_parent? hp, .inr ⟨hp, ht, hw, hr⟩⟩
  · rintro ⟨id, hid, hreg, ⟨rfl, hp⟩ | ⟨hp, ht, hw, hr⟩⟩
    · exact .inl ⟨hid, hreg, hp⟩
    · exact .inr ⟨ht, hw, hr, id, hid, hp⟩

theorem mem_ids_of_topLevel {t : ResourceId} (h : r.TopLevel root wanted t) : t ∈ r.ids := by
  rcases h with h | h
  · exact h.2.1
  · exact h.1

theorem not_topLevel_root (h : root ∉ wanted) : ¬ r.TopLevel root wanted root := by
  rintro (ht | ht)
  · exact h ht.1
  · exact ht.2.2.1 rfl

/-- a selection embeds the requested and registered resources among the children it has a slot for -/
theorem embeddedIds_selection (t : ResourceId) (m : Metadata) :
    (r.selection wanted t m).embeddedIds = m.slots.filter fun c => c ∈ wanted ∧ c ∈ r.ids := by
  simp only [selection, Selection.embeddedIds, embeddable]
  induction m.slots with
  | nil => rfl
  | cons c cs ih =>
    by_cases hw : c ∈ wanted
    · cases hc : r.get? c with
      | none =>
        have hno : c ∉ r.ids := get?_eq_none_iff.1 hc
        simpa [hw, hc, hno] using ih
      | some n => simpa [hw, hc, mem_ids_of_get? hc] using ih
    · simpa [hw] using ih

end Registry

/-! ## The requested resources -/

namespace Request

theorem mem_wanted_iff {id : ResourceId} : id ∈ q.wanted ↔ id ∈ q.ids ∧ id ≠ q.root := by
  simp [wanted]

theorem root_notMem_wanted : q.root ∉ q.wanted := fun h => (mem_wanted_iff.1 h).2 rfl

end Request

/-! ## Drafts -/

namespace Registry.Placed

theorem nodup_selected {done : List ResourceId} (h : r.Placed root wanted done d) : d.selected.Nodup := by
  rw [h.selected]
  exact nodup_eraseDups _

theorem mem_selected_iff (h : r.Placed root wanted wanted d) {t : ResourceId} :
    t ∈ d.selected ↔ r.TopLevel root wanted t := by
  simp only [h.selected, List.mem_eraseDups, List.mem_filterMap, target?_eq_some_iff, topLevel_iff_resolvesTo]

/-- the selections are those of the members of the top level -/
theorem mem_selections_iff (h : r.Placed root wanted wanted d) {s : Selection} :
    s ∈ d.selections ↔ ∃ t m, r.TopLevel root wanted t ∧ r.get? t = some m ∧ s = r.selection wanted t m := by
  constructor
  · intro hs
    obtain ⟨m, hm, e⟩ := h.selections s hs
    exact ⟨s.id, m, h.mem_selected_iff.1 (List.mem_map_of_mem hs), hm, e⟩
  · rintro ⟨t, m, ht, hm, rfl⟩
    obtain ⟨s, hs, rfl⟩ := List.mem_map.1 (h.mem_selected_iff.2 ht)
    obtain ⟨n, hn, e⟩ := h.selections s hs
    rw [hm] at hn
    cases hn
    exact e ▸ hs

theorem mem_embedded_iff (h : r.Placed root wanted wanted d) {c : ResourceId} :
    c ∈ d.embedded ↔ r.Embedded root wanted c := by
  rw [Draft.embedded, List.mem_eraseDups, List.mem_flatMap]
  constructor
  · rintro ⟨s, hs, hc⟩
    obtain ⟨t, m, ht, hm, rfl⟩ := h.mem_selections_iff.1 hs
    rw [embeddedIds_selection] at hc
    obtain ⟨hslot, hw⟩ := List.mem_filter.1 hc
    obtain ⟨hacc, hch⟩ := Metadata.mem_slots.1 hslot
    obtain ⟨hw, hreg⟩ := of_decide_eq_true hw
    exact ⟨hw, hreg, t, mem_ids_of_topLevel ht, ht, m, hm, hacc, hch⟩
  · rintro ⟨hw, hreg, t, -, ht, m, hm, hacc, hch⟩
    refine ⟨r.selection wanted t m, h.mem_selections_iff.2 ⟨t, m, ht, hm, rfl⟩, ?_⟩
    rw [embeddedIds_selection]
    exact List.mem_filter.2 ⟨Metadata.mem_slots.2 ⟨hacc, hch⟩, decide_eq_true ⟨hw, hreg⟩⟩

/-- the top level stands in the order of the first requests for its members -/
theorem pairwise_selected (h : r.Placed root wanted wanted d) :
    d.selected.Pairwise fun a b => r.firstFor root wanted a < r.firstFor root wanted b := by
  rw [h.selected]
  have := pairwise_eraseDups_filterMap (r.target? root wanted) wanted
  simpa only [firstFor, target?_eq_some_iff] using this

end Registry.Placed

/-! ## Answers -/

namespace Request.Answers

variable {m : Metadata} {out : CompiledQuery}

/-- the resources: the root, the top level, and what is embedded but not selected -/
theorem mem_embedded_only_iff (h : q.Answers r m d out) {c : ResourceId} :
    c ∈ d.embedded.filter (· ∉ d.selected) ↔
      r.Embedded q.root q.wanted c ∧ ¬ r.TopLevel q.root q.wanted c := by
  have hd := draft_placed h.drafted
  rw [List.mem_filter, hd.mem_embedded_iff, decide_eq_true_iff, hd.mem_selected_iff]

theorem mem_resources_iff (h : q.Answers r m d out) {id : ResourceId} :
    id ∈ out.resources ↔ id = q.root ∨ r.TopLevel q.root q.wanted id ∨ r.Embedded q.root q.wanted id := by
  rw [h.resources, Request.resources, List.mem_append, List.mem_cons, h.mem_embedded_only_iff,
    (draft_placed h.drafted).mem_selected_iff]
  by_cases ht : r.TopLevel q.root q.wanted id <;> simp [ht]

theorem nodup_resources (h : q.Answers r m d out) : out.resources.Nodup := by
  have hd := draft_placed h.drafted
  rw [h.resources]
  refine List.nodup_append.2 ⟨List.nodup_cons.2 ⟨?_, hd.nodup_selected⟩, (nodup_eraseDups _).filter _, ?_⟩
  · intro hm
    exact Registry.not_topLevel_root root_notMem_wanted (hd.mem_selected_iff.1 hm)
  · rintro a ha b hb rfl
    obtain ⟨hb, hno⟩ := h.mem_embedded_only_iff.1 hb
    rcases List.mem_cons.1 ha with rfl | ha
    · exact root_notMem_wanted hb.1
    · exact hno (hd.mem_selected_iff.1 ha)

/-- what is left out: the requested resources with no place, each with its reason -/
theorem skipped_eq (h : q.Answers r m d out) :
    out.skipped =
      (q.wanted.filter fun id => ¬ r.TopLevel q.root q.wanted id ∧ ¬ r.Embedded q.root q.wanted id).map fun id =>
        ⟨id, if r.get? id = none then .unregistered else .unreachable⟩ := by
  have hd := draft_placed h.drafted
  have hs : out.skipped = _ := h.skipped
  simp only [Request.skipped, hd.mem_selected_iff, hd.mem_embedded_iff] at hs
  rw [hs]
  refine List.map_congr_left ?_
  intro id _
  have hc : r.contains id = (r.get? id).isSome := rfl
  cases hid : r.get? id <;> simp [hc, hid]

theorem mem_skipped_iff (h : q.Answers r m d out) {id : ResourceId} :
    id ∈ out.skipped.map Skipped.id ↔
      id ∈ q.wanted ∧ ¬ r.TopLevel q.root q.wanted id ∧ ¬ r.Embedded q.root q.wanted id := by
  rw [h.skipped_eq, List.map_map]
  simp [Function.comp_def]

end Request.Answers

/-! ## Main results -/

/-- **What a document covers.** The resources of an answer are without repeats: first the root, then the top level in
the order of the first requests for its members, then what is embedded and not selected too. The requested resources
with neither place are left out in request order, as unregistered or else as unreachable. So each requested resource is
either covered or left out, and the root is no member of the top level. -/
theorem compile_covers_request {out : CompiledQuery} (h : q.compile r = .ok out) :
    out.resources.Nodup ∧
    (∃ tops rest, out.resources = q.root :: tops ++ rest ∧
      (∀ t, t ∈ tops ↔ r.TopLevel q.root q.wanted t) ∧
      (tops.Pairwise fun a b => r.firstFor q.root q.wanted a < r.firstFor q.root q.wanted b) ∧
      ∀ c, c ∈ rest ↔ r.Embedded q.root q.wanted c ∧ ¬ r.TopLevel q.root q.wanted c) ∧
    out.skipped =
      ((q.wanted.filter fun id => ¬ r.TopLevel q.root q.wanted id ∧ ¬ r.Embedded q.root q.wanted id).map fun id =>
        ⟨id, if r.get? id = none then .unregistered else .unreachable⟩) ∧
    (∀ id ∈ q.wanted, id ∈ out.skipped.map Skipped.id ↔ id ∉ out.resources) ∧
    ¬ r.TopLevel q.root q.wanted q.root := by
  obtain ⟨root, d, ha⟩ := Request.compile_eq_ok_iff.1 h
  have hd := Request.draft_placed ha.drafted
  refine ⟨ha.nodup_resources, ⟨d.selected, d.embedded.filter (· ∉ d.selected), ha.resources,
    fun t => hd.mem_selected_iff, hd.pairwise_selected, fun c => ha.mem_embedded_only_iff⟩, ha.skipped_eq,
    ?_, Registry.not_topLevel_root Request.root_notMem_wanted⟩
  intro id hid
  have hne : id ≠ q.root := by
    rintro rfl
    exact Request.root_notMem_wanted hid
  rw [ha.mem_skipped_iff, ha.mem_resources_iff]
  simp [hid, hne]

/-- a hub with teams and repositories, a board that has no slot for its cards, and a link to nothing -/
def hubRegistry : Registry := .ofList {} [
  (⟨"hub"⟩, { fragment := .nested "hub \x7b\n" "\x7d" }),
  (⟨"teams"⟩, { fragment := .nested "teams \x7b\n" "\x7d", children := [⟨"members"⟩, ⟨"repos"⟩] }),
  (⟨"members"⟩, { fragment := .leaf "members", parent := some ⟨"teams"⟩ }),
  (⟨"repos"⟩,
    { fragment := .nested "repos \x7b\n" "\x7d", parent := some ⟨"teams"⟩, children := [⟨"issues"⟩, ⟨"labels"⟩] }),
  (⟨"issues"⟩, { fragment := .leaf "issues", parent := some ⟨"repos"⟩ }),
  (⟨"labels"⟩, { fragment := .leaf "labels" }),
  (⟨"board"⟩, { fragment := .leaf "board", children := [⟨"cards"⟩] }),
  (⟨"cards"⟩, { fragment := .leaf "cards", parent := some ⟨"board"⟩ }),
  (⟨"lost"⟩, { fragment := .leaf "lost", parent := some ⟨"gone"⟩ })]

def hubRequest : Request :=
  { root := ⟨"hub"⟩
    ids := [⟨"issues"⟩, ⟨"members"⟩, ⟨"hub"⟩, ⟨"labels"⟩, ⟨"cards"⟩, ⟨"lost"⟩, ⟨"ghost"⟩, ⟨"issues"⟩] }

def hubAnswer : CompiledQuery where
  document :=
    "query \x7b\nhub \x7b\nrepos \x7b\nissues\nlabels\n\x7d\nteams \x7b\nmembers\n\x7d\nlabels\nboard\n\x7d\n" ++
      "...rateLimit\n\x7d"
  declarations := []
  resources := [⟨"hub"⟩, ⟨"repos"⟩, ⟨"teams"⟩, ⟨"labels"⟩, ⟨"board"⟩, ⟨"issues"⟩, ⟨"members"⟩]
  skipped := [⟨⟨"cards"⟩, .unreachable⟩, ⟨⟨"lost"⟩, .unreachable⟩, ⟨⟨"ghost"⟩, .unregistered⟩]

theorem hub_compiles : hubRequest.compile hubRegistry = .ok hubAnswer := by decide +kernel

theorem hub_covers_request :
    hubRequest.compile hubRegistry = .ok hubAnswer ∧ hubAnswer.resources.Nodup ∧
      (∀ id ∈ hubRequest.wanted, id ∈ hubAnswer.skipped.map Skipped.id ↔ id ∉ hubAnswer.resources) ∧
      ¬ hubRegistry.TopLevel ⟨"hub"⟩ hubRequest.wanted ⟨"hub"⟩ := by
  obtain ⟨hnodup, -, -, hsplit, hroot⟩ := compile_covers_request hub_compiles
  exact ⟨hub_compiles, hnodup, hsplit, hroot⟩

end ResourceQuery
