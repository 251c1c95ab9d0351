/-
The text of a document, read off the links of the registry.

The top level is listed without regard to the order of placing: the entries of its members, sorted by the first request
that resolves to each. A member's block is its fragment around its requested children, each on its own; the document
is the root's fragment around all blocks, between the header and the rate limit.

Results:
- `topLevel_eq_carried`: sorting gives what the requests resolve to, one after the other.
- `Placed.selections_eq`: a draft selects what its requests resolve to, in that order.
- `document_follows_layout`: the document of an answer is the laid-out text.
-/
import Mathlib.Data.List.Nodup
import ResourceQuery.Proofs.Coverage

namespace ResourceQuery

variable {r : Registry} {root : ResourceId} {wanted : List ResourceId} {q : Request} {d : Draft} {m : Metadata}

/-! ## The layout -/

namespace Request

/-- the entries of the top level, in the order of the first requests for them -/
def topLevel (q : Request) (r : Registry) : List (ResourceId × Metadata) :=
  (r.entries.entries.filter fun e => r.TopLevel q.root q.wanted e.1).mergeSort
    fun a b => r.firstFor q.root q.wanted a.1 ≤ r.firstFor q.root q.wanted b.1

/-- the entries of the children that `m` declares and that are requested, in declared order -/
def requestedChildren (q : Request) (r : Registry) (m : Metadata) : List (ResourceId × Metadata) :=
  m.children.filterMap fun c => if c ∈ q.ids ∧ c ≠ q.root then (r.get? c).map (c, ·) else none

/-- the fragment of `m` around its requested children, with nothing below them -/
def block (q : Request) (r : Registry) (m : Metadata) : String :=
  m.fragment.render ("\n".intercalate ((q.requestedChildren r m).map fun c => c.2.fragment.render ""))

/-- the line that opens a document with these declarations -/
def headerLine (declarations : List Variable) : String :=
  if declarations = [] then "query \x7b"
  else "query (" ++ ", ".intercalate (declarations.map Variable.text) ++ ") \x7b"

/-- the lines below the header: the root around the blocks of the top level, and the rate limit -/
def body (q : Request) (r : Registry) (root : Metadata) : String :=
  root.fragment.render ("\n".intercalate ((q.topLevel r).map fun e => q.block r e.2)) ++ "\n" ++
    "...rateLimit" ++ "\n" ++ "\x7d"

/-- the document below a root with these declarations in its header -/
def layout (q : Request) (r : Registry) (root : Metadata) (declarations : List Variable) : String :=
  headerLine declarations ++ "\n" ++ q.body r root

end Request

/-! ## The order of the top level -/

namespace Registry

/-- the entries that the requests `done` resolve to, each once, in the order of the first that does -/
def carried (r : Registry) (root : ResourceId) (wanted done : List ResourceId) : List (ResourceId × Metadata) :=
  (done.filterMap (r.target? root wanted)).eraseDups.filterMap fun t => (r.get? t).map (t, ·)

theorem mem_carried_iff {done : List ResourceId} {e : ResourceId × Metadata} :
    e ∈ r.carried root wanted done ↔ (∃ id ∈ done, r.ResolvesTo root wanted id e.1) ∧ r.get? e.1 = some e.2 := by
  simp only [carried, List.mem_filterMap, List.mem_eraseDups, target?_eq_some_iff, Option.map_eq_some_iff]
  constructor
  · rintro ⟨t, hres, m, hm, rfl⟩
    exact ⟨hres, hm⟩
  · rintro ⟨hres, hm⟩
    exact ⟨e.1, hres, e.2, hm, rfl⟩

theorem carried_append (r : Registry) (root : ResourceId) (wanted done ids : List ResourceId) :
    r.carried root wanted done <+: r.carried root wanted (done ++ ids) := by
  unfold carried
  rw [List.filterMap_append, List.eraseDups_append, List.filterMap_append]
  exact List.prefix_append _ _

theorem map_fst_carried (done : List ResourceId) :
    (r.carried root wanted done).map Prod.fst = (done.filterMap (r.target? root wanted)).eraseDups := by
  have hkeep : ∀ t ∈ (done.filterMap (r.target? root wanted)).eraseDups,
      ((r.get? t).map (t, ·)).map Prod.fst = some t := by
    intro t ht
    obtain ⟨id, -, hres⟩ := List.mem_filterMap.1 (List.mem_eraseDups.1 ht)
    have htop := target?_eq_some_iff.1 hres
    have hreg : t ∈ r.ids := by
      rcases htop.2 with ⟨rfl, -⟩ | ⟨-, ht, -⟩
      · exact htop.1
      · exact ht
    obtain ⟨m, hm⟩ := mem_ids_iff.1 hreg
    simp [hm]
  rw [carried, List.map_filterMap, List.filterMap_congr hkeep, List.filterMap_some]

/-- one request resolves to one resource, so the first requests for two resources differ -/
theorem firstFor_injective {t u : ResourceId} (ht : r.TopLevel root wanted t) (hu : r.TopLevel root wanted u)
    (h : r.firstFor root wanted t = r.firstFor root wanted u) : t = u := by
  have hfound : ∀ x, r.TopLevel root wanted x →
      ∃ id, wanted[r.firstFor root wanted x]? = some id ∧ r.target? root wanted id = some x := by
    intro x hx
    obtain ⟨id, hid, hres⟩ := topLevel_iff_resolvesTo.1 hx
    have hlt : r.firstFor root wanted x < wanted.length :=
      List.findIdx_lt_length_of_exists ⟨id, hid, decide_eq_true hres⟩
    refine ⟨_, List.getElem?_eq_getElem hlt, target?_eq_some_iff.2 ?_⟩
    exact of_decide_eq_true (List.findIdx_getElem (w := hlt))
  obtain ⟨a, ha, hat⟩ := hfound t ht
  obtain ⟨b, hb, hbu⟩ := hfound u hu
  rw [h, hb] at ha
  cases ha
  exact Option.some.inj (hat.symm.trans hbu)

/-- the entries that all requests resolve to come in the order of the first requests for them -/
theorem pairwise_carried (r : Registry) (root : ResourceId) (wanted : List ResourceId) :
    (r.carried root wanted wanted).Pairwise fun a b => r.firstFor root wanted a.1 < r.firstFor root wanted b.1 := by
  have hfst := pairwise_eraseDups_filterMap (r.target? root wanted) wanted
  rw [← map_fst_carried, List.pairwise_map] at hfst
  simpa only [firstFor, target?_eq_some_iff] using hfst

/-- a draft selects the entries that its requests resolve to -/
theorem Placed.selections_eq {done : List ResourceId} (h : r.Placed root wanted done d) :
    d.selections = (r.carried root wanted done).map fun e => r.selection wanted e.1 e.2 := by
  have hself : ∀ s ∈ d.selections,
      ((r.get? s.id).map (s.id, ·)).map (fun e => r.selection wanted e.1 e.2) = some s := by
    intro s hs
    obtain ⟨m, hm, hsel⟩ := h.selections s hs
    rw [hm, Option.map_some, Option.map_some, ← hsel]
  calc d.selections
      = d.selections.filterMap some := by rw [List.filterMap_some]
    _ = d.selections.filterMap fun s => ((r.get? s.id).map (s.id, ·)).map fun e => r.selection wanted e.1 e.2 :=
        List.filterMap_congr fun s hs => (hself s hs).symm
    _ = (d.selected.filterMap fun t => (r.get? t).map (t, ·)).map fun e => r.selection wanted e.1 e.2 := by
        rw [List.map_filterMap, Draft.selected, List.filterMap_map]
        rfl
    _ = (r.carried root wanted done).map fun e => r.selection wanted e.1 e.2 := by rw [h.selected, carried]

end Registry

namespace Request

theorem mem_topLevel_iff {e : ResourceId × Metadata} :
    e ∈ q.topLevel r ↔ r.TopLevel q.root q.wanted e.1 ∧ r.get? e.1 = some e.2 := by
  have hget : r.get? e.1 = some e.2 ↔ e ∈ r.entries.entries := OrderedMap.get?_eq_some_iff
  rw [topLevel, List.mem_mergeSort, List.mem_filter, decide_eq_true_iff, hget, and_comm]

/-- Sorted by their first requests, the members of the top level are what the requests resolve to. -/
theorem topLevel_eq_carried : q.topLevel r = r.carried q.root q.wanted q.wanted := by
  have hcarried := Registry.pairwise_carried r q.root q.wanted
  have hsorted : (q.topLevel r).Pairwise fun a b =>
      r.firstFor q.root q.wanted a.1 ≤ r.firstFor q.root q.wanted b.1 := by
    unfold topLevel
    refine (List.pairwise_mergeSort ?_ ?_ _).imp of_decide_eq_true
    · intro a b c hab hbc
      exact decide_eq_true (Nat.le_trans (of_decide_eq_true hab) (of_decide_eq_true hbc))
    · intro a b
      simpa using Nat.le_total _ _
  have hmem : ∀ e, e ∈ q.topLevel r ↔ e ∈ r.carried q.root q.wanted q.wanted := by
    intro e
    rw [mem_topLevel_iff, Registry.mem_carried_iff, Registry.topLevel_iff_resolvesTo]
  have hnodup : (q.topLevel r).Nodup :=
    (List.mergeSort_perm _ _).nodup_iff.2 ((List.Nodup.of_map _ r.entries.nodup).filter _)
  have hnodup' : (r.carried q.root q.wanted q.wanted).Nodup := by
    refine hcarried.imp ?_
    rintro a b hlt rfl
    exact Nat.lt_irrefl _ hlt
  refine List.Perm.eq_of_pairwise ?_ hsorted (hcarried.imp Nat.le_of_lt) ?_
  · intro a b ha hb hab hba
    obtain ⟨hatop, haget⟩ := mem_topLevel_iff.1 ha
    obtain ⟨hbtop, hbget⟩ := mem_topLevel_iff.1 ((hmem b).2 hb)
    have hid : a.1 = b.1 := Registry.firstFor_injective hatop hbtop (Nat.le_antisymm hab hba)
    rw [hid, hbget] at haget
    exact Prod.ext hid (Option.some.inj haget).symm
  · exact (List.perm_ext_iff_of_nodup hnodup hnodup').2 hmem

/-! ## Blocks -/

/-- what a selection embeds: the requested children, if its fragment has a slot -/
theorem embeddable_eq (q : Request) (r : Registry) (m : Metadata) :
    r.embeddable q.wanted m = if m.fragment.acceptsChildren then q.requestedChildren r m else [] := by
  have hchildren : ∀ cs : List ResourceId,
      (cs.filter (· ∈ q.wanted)).filterMap (fun c => (r.get? c).map (c, ·)) =
        cs.filterMap fun c => if c ∈ q.ids ∧ c ≠ q.root then (r.get? c).map (c, ·) else none := by
    intro cs
    rw [List.filterMap_filter]
    simp only [decide_eq_true_eq, mem_wanted_iff]
  rw [Registry.embeddable, hchildren, Metadata.slots, requestedChildren]
  split <;> rfl

/-- a fragment with no slot drops what it is rendered around, so its children need no case of their own -/
theorem render_selection_eq_block (q : Request) (r : Registry) (t : ResourceId) (m : Metadata) :
    (r.selection q.wanted t m).render = q.block r m := by
  unfold Registry.selection Selection.render block
  rw [embeddable_eq]
  cases hf : m.fragment with
  | leaf text => rfl
  | nested opening closing => rfl

theorem header_eq (declared : VariableSet) : header declared = headerLine declared.toList := by
  have hempty : declared.isEmpty = true ↔ declared.toList = [] := by
    simp [VariableSet.isEmpty, VariableSet.toList, OrderedMap.isEmpty]
  simp only [header, headerLine, VariableSet.text, hempty]

/-- a finished draft selects the entries of the top level, in their order -/
theorem draft_selections (h : q.draft r m = .ok d) :
    d.selections = (q.topLevel r).map fun e => r.selection q.wanted e.1 e.2 := by
  rw [topLevel_eq_carried]
  exact (draft_placed h).selections_eq

/-- the text of a draft is laid out by the links of the registry -/
theorem document_eq_layout (h : q.draft r m = .ok d) : d.document m = q.layout r m d.declared.toList := by
  have hblocks : d.selections.map Selection.render = (q.topLevel r).map fun e => q.block r e.2 := by
    rw [draft_selections h, List.map_map]
    refine List.map_congr_left ?_
    intro e _
    exact render_selection_eq_block q r e.1 e.2
  rw [Draft.document, hblocks, header_eq, layout, body, rateLimitSpread]
  simp only [String.append_assoc]
  rfl

end Request

/-! ## Main result -/

/-- **Layout of a document.** The document of an answer has its declarations in the header, if there are any; then the
root's fragment around the blocks of the top level, in the order of the first requests for its members; then the spread
for the rate limit. -/
theorem document_follows_layout {out : CompiledQuery} (h : q.compile r = .ok out) :
    ∃ root, r.get? q.root = some root ∧ out.document = q.layout r root out.declarations := by
  obtain ⟨root, d, ha⟩ := Request.compile_eq_ok_iff.1 h
  refine ⟨root, ha.registered, ?_⟩
  rw [ha.document, ha.declarations]
  exact Request.document_eq_layout ha.drafted

theorem hub_follows_layout :
    hubRequest.compile hubRegistry = .ok hubAnswer ∧
      ∃ root, hubRegistry.get? hubRequest.root = some root ∧
        hubAnswer.document = hubRequest.layout hubRegistry root hubAnswer.declarations :=
  ⟨hub_compiles, document_follows_layout hub_compiles⟩

end ResourceQuery
