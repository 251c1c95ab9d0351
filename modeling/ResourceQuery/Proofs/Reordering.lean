/-
Requests that ask for the same in another order.

Placing goes through a request in its order, and stops at the first fault. But what becomes of each resource is settled
by what is asked for and not by the order of asking: so are the top level, what it embeds, the declarations that this
takes, and whether there is a fault at all. The order decides about order only.

Results:
- `AsksSame.topLevel_perm`, `AsksSame.selections_perm`: the same selections, each with the same children below it.
- `AsksSame.exists_compile_ok_iff`: an answer to one request if and only if there is one to the other.
- `reordered_requests_agree`: requests that are reorderings of each other get the same content.
-/
import ResourceQuery.Proofs.Failure

namespace ResourceQuery

variable {r : Registry} {m : Metadata}

/-! ## Sets of requested resources -/

namespace Registry

variable {root : ResourceId} {wanted wanted' : List ResourceId}

theorem topLevel_congr (h : ∀ id, id ∈ wanted ↔ id ∈ wanted') {t : ResourceId} :
    r.TopLevel root wanted t ↔ r.TopLevel root wanted' t := by
  simp only [TopLevel, Direct, Promoted, h]

theorem embedded_congr (h : ∀ id, id ∈ wanted ↔ id ∈ wanted') {c : ResourceId} :
    r.Embedded root wanted c ↔ r.Embedded root wanted' c := by
  simp only [Embedded, topLevel_congr h, h]

theorem selection_congr (h : ∀ id, id ∈ wanted ↔ id ∈ wanted') (t : ResourceId) (m : Metadata) :
    r.selection wanted t m = r.selection wanted' t m := by
  simp only [selection, embeddable, h]

end Registry

namespace Request

/-! ## Requests for the same -/

/-- the same root, the same resources in whatever order and as often as may be, and strict or not alike -/
structure AsksSame (q q' : Request) : Prop where
  root : q.root = q'.root
  ids : ∀ id, id ∈ q.ids ↔ id ∈ q'.ids
  strict : q.strict = q'.strict

theorem asksSame_of_perm (q : Request) {ids : List ResourceId} (h : q.ids.Perm ids) : q.AsksSame { q with ids } :=
  ⟨rfl, fun _ => h.mem_iff, rfl⟩

namespace AsksSame

variable {q q' : Request} {d d' : Draft}

theorem mem_wanted_iff (h : q.AsksSame q') (id : ResourceId) : id ∈ q.wanted ↔ id ∈ q'.wanted := by
  rw [Request.mem_wanted_iff, Request.mem_wanted_iff, h.ids, h.root]

theorem wanted_perm (h : q.AsksSame q') : q.wanted.Perm q'.wanted :=
  (List.perm_ext_iff_of_nodup (nodup_eraseDups _) (nodup_eraseDups _)).2 h.mem_wanted_iff

theorem topLevel_iff (h : q.AsksSame q') {t : ResourceId} :
    r.TopLevel q.root q.wanted t ↔ r.TopLevel q'.root q'.wanted t := by
  rw [h.root]
  exact Registry.topLevel_congr h.mem_wanted_iff

theorem embedded_iff (h : q.AsksSame q') {c : ResourceId} :
    r.Embedded q.root q.wanted c ↔ r.Embedded q'.root q'.wanted c := by
  rw [h.root]
  exact Registry.embedded_congr h.mem_wanted_iff

theorem covers_iff (h : q.AsksSame q') {id : ResourceId} : q.Covers r id ↔ q'.Covers r id := by
  rw [Covers, Covers, h.topLevel_iff, h.embedded_iff, h.root]

theorem coversSame (h : q.AsksSame q') : q.CoversSame r q' := ⟨h.root, fun _ => h.covers_iff⟩

/-! ## Success -/

/-- the causes of failure are said without the order of the request -/
theorem exists_compile_ok_iff (h : q.AsksSame q') :
    (∃ out, q.compile r = .ok out) ↔ ∃ out, q'.compile r = .ok out := by
  have hcyclic : q.Cyclic r ↔ q'.Cyclic r := by simp only [Cyclic, Followed, h.root, h.ids]
  have hconflict : q.Conflicting r ↔ q'.Conflicting r := h.coversSame.conflicting_iff
  have hleft : ∀ id, q.LeftOut r id ↔ q'.LeftOut r id := by
    intro id
    rw [LeftOut, LeftOut, h.ids, h.covers_iff]
  simp only [Request.exists_compile_ok_iff, hcyclic, hconflict, hleft, h.root, h.strict]

/-! ## Content -/

/-- the top level is sorted from the same entries -/
theorem topLevel_perm (h : q.AsksSame q') : (q.topLevel r).Perm (q'.topLevel r) := by
  have hsame : (r.entries.entries.filter fun e => r.TopLevel q.root q.wanted e.1) =
      r.entries.entries.filter fun e => r.TopLevel q'.root q'.wanted e.1 := by
    apply List.filter_congr
    intro e _
    rw [decide_eq_decide]
    exact h.topLevel_iff
  calc (q.topLevel r).Perm (r.entries.entries.filter fun e => r.TopLevel q.root q.wanted e.1) :=
        List.mergeSort_perm _ _
    _ = r.entries.entries.filter fun e => r.TopLevel q'.root q'.wanted e.1 := hsame
    List.Perm _ (q'.topLevel r) := (List.mergeSort_perm _ _).symm

/-- each selection is the same, with the same children below it -/
theorem selections_perm (h : q.AsksSame q') (hd : q.draft r m = .ok d) (hd' : q'.draft r m = .ok d') :
    d.selections.Perm d'.selections := by
  have hselect : ∀ e : ResourceId × Metadata, r.selection q.wanted e.1 e.2 = r.selection q'.wanted e.1 e.2 :=
    fun e => Registry.selection_congr h.mem_wanted_iff e.1 e.2
  rw [draft_selections hd, draft_selections hd', funext hselect]
  exact h.topLevel_perm.map _

variable {out out' : CompiledQuery}

theorem skipped_perm (h : q.AsksSame q') (ha : q.Answers r m d out) (ha' : q'.Answers r m d' out') :
    out.skipped.Perm out'.skipped := by
  rw [ha.skipped_eq, ha'.skipped_eq]
  simp only [h.topLevel_iff, h.embedded_iff]
  exact (h.wanted_perm.filter _).map _

end AsksSame

end Request

/-! ## Main result -/

/-- **Order of a request.** If the resources of a request are put into another order, it has an answer as before or
fails as before. The two answers have the same resources, the same declarations, and leave out the same for the same
reasons; and each document is the root around its blocks, the texts of the top-level selections with what they embed,
which are the same in both. -/
theorem reordered_requests_agree (r : Registry) (q : Request) {ids : List ResourceId} (h : q.ids.Perm ids) :
    ((∃ out, q.compile r = .ok out) ↔ ∃ out, ({ q with ids } : Request).compile r = .ok out) ∧
    ∀ out out', q.compile r = .ok out → ({ q with ids } : Request).compile r = .ok out' →
      out.resources.Perm out'.resources ∧ out.skipped.Perm out'.skipped ∧
      out.declarations.Perm out'.declarations ∧
      ∃ root d d', q.Answers r root d out ∧ ({ q with ids } : Request).Answers r root d' out' ∧
        (d.selections.map Selection.render).Perm (d'.selections.map Selection.render) := by
  have hsame := q.asksSame_of_perm h
  refine ⟨hsame.exists_compile_ok_iff, ?_⟩
  intro out out' hout hout'
  obtain ⟨root, d, ha⟩ := Request.compile_eq_ok_iff.1 hout
  obtain ⟨root', d', ha'⟩ := Request.compile_eq_ok_iff.1 hout'
  obtain rfl : root = root' := Option.some.inj (ha.registered.symm.trans ha'.registered)
  have hcovers : q.CoversSame r { q with ids } := hsame.coversSame
  refine ⟨hcovers.resources_perm ha ha', hsame.skipped_perm ha ha', hcovers.declarations_perm ha ha', ?_⟩
  exact ⟨root, d, d', ha, ha', (hsame.selections_perm ha.drafted ha'.drafted).map _⟩

/-- the hub's request the other way round: a child now comes before its sibling, and what is left out comes first -/
theorem hub_reversed_agrees :
    hubRequest.ids.Perm hubRequest.ids.reverse ∧
    ∃ out, ({ hubRequest with ids := hubRequest.ids.reverse } : Request).compile hubRegistry = .ok out ∧
      hubAnswer.resources.Perm out.resources ∧ hubAnswer.skipped.Perm out.skipped ∧
      hubAnswer.declarations.Perm out.declarations := by
  have hperm : hubRequest.ids.Perm hubRequest.ids.reverse := (List.reverse_perm _).symm
  obtain ⟨hok, hsame⟩ := reordered_requests_agree hubRegistry hubRequest hperm
  obtain ⟨out, hout⟩ := hok.1 ⟨hubAnswer, hub_compiles⟩
  obtain ⟨hresources, hskipped, hdeclarations, -⟩ := hsame hubAnswer out hub_compiles hout
  exact ⟨hperm, out, hout, hresources, hskipped, hdeclarations⟩

end ResourceQuery
