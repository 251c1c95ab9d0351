/-
Flat registries.

Below a root, a registry is flat if each registered parent, other than the root, is reached on its own or from the root.
The parent of a requested resource is then at the top level, whether it is requested itself or selected on behalf of the
resource. So nothing loses its place when more is requested, and what an answer covers can be requested again.

Results:
- `FlatBelow.topLevel_of_parent`: the parent of a requested resource is at the top level.
- `FlatBelow.covers_mono`: a larger request covers more.
- `larger_requests_cover_more`: its answer has all resources of the smaller one's, and leaves out no more of what the
  smaller one asks for; and the built-in registry is flat below every root.
- `FlatBelow.coversSame_again`: a request for all that is covered covers the same.
- `answers_request_themselves`: so an answer's resources, requested again, are answered even by a strict request, with
  the same resources and variables.
Counterexample:
- `chain_loses_labels`: in a registry that is not flat, an answer's resources requested again lose one of them.
-/
import ResourceQuery.Proofs.BuiltIn
import ResourceQuery.Proofs.Nesting

namespace ResourceQuery

variable {r : Registry} {root : ResourceId} {wanted wanted' : List ResourceId} {q : Request}

/-! ## Flatness -/

namespace Registry

/-- every registered parent, other than the root, is reached on its own or from the root -/
def FlatBelow (r : Registry) (root : ResourceId) : Prop :=
  ∀ id ∈ r.ids, ∀ p ∈ r.parent? id, p ∈ r.ids → p ≠ root → r.ReachedFrom root p

instance (r : Registry) (root : ResourceId) : Decidable (r.FlatBelow root) := by
  unfold FlatBelow; infer_instance

namespace FlatBelow

theorem reachedFrom_parent (h : r.FlatBelow root) {id p : ResourceId} (hp : r.parent? id = some p) (hreg : p ∈ r.ids)
    (hne : p ≠ root) : r.ReachedFrom root p :=
  h id (mem_ids_of_parent? hp) p hp hreg hne

/-- the parent of a requested resource is at the top level, requested or not -/
theorem topLevel_of_parent (h : r.FlatBelow root) {id p : ResourceId} (hid : id ∈ wanted) (hp : r.parent? id = some p)
    (hreg : p ∈ r.ids) (hne : p ≠ root) : r.TopLevel root wanted p := by
  by_cases hw : p ∈ wanted
  · exact .inl ⟨hw, hreg, h.reachedFrom_parent hp hreg hne⟩
  · exact .inr ⟨hreg, hw, hne, id, hid, hp⟩

theorem reachedFrom_of_topLevel (h : r.FlatBelow root) {t : ResourceId} (ht : r.TopLevel root wanted t) :
    r.ReachedFrom root t := by
  rcases ht with ⟨-, -, hreach⟩ | ⟨hreg, -, hne, id, -, hp⟩
  · exact hreach
  · exact h.reachedFrom_parent hp hreg hne

/-! ## Larger requests -/

theorem topLevel_mono (h : r.FlatBelow root) (hsub : wanted ⊆ wanted') {t : ResourceId}
    (ht : r.TopLevel root wanted t) : r.TopLevel root wanted' t := by
  rcases ht with ⟨hw, hreg, hreach⟩ | ⟨hreg, -, hne, id, hid, hp⟩
  · exact .inl ⟨hsub hw, hreg, hreach⟩
  · exact h.topLevel_of_parent (hsub hid) hp hreg hne

theorem embedded_mono (h : r.FlatBelow root) (hsub : wanted ⊆ wanted') {c : ResourceId}
    (hc : r.Embedded root wanted c) : r.Embedded root wanted' c := by
  obtain ⟨hw, hreg, t, htreg, ht, hslot⟩ := hc
  exact ⟨hsub hw, hreg, t, htreg, h.topLevel_mono hsub ht, hslot⟩

/-- a larger request covers more -/
theorem covers_mono (h : r.FlatBelow q.root) {ids : List ResourceId} (hsub : q.ids ⊆ ids) {id : ResourceId}
    (hc : q.Covers r id) : ({ q with ids } : Request).Covers r id := by
  have hwanted : q.wanted ⊆ ({ q with ids } : Request).wanted := by
    intro x hx
    obtain ⟨hids, hne⟩ := Request.mem_wanted_iff.1 hx
    exact Request.mem_wanted_iff.2 ⟨hsub hids, hne⟩
  rcases hc with rfl | ht | he
  · exact .inl rfl
  · exact .inr (.inl (h.topLevel_mono hwanted ht))
  · exact .inr (.inr (h.embedded_mono hwanted he))

end FlatBelow

end Registry

/-- no built-in parent has a parent of its own -/
theorem GitHub.registry_flat (limits : PageLimits) (root : ResourceId) : (registry limits).FlatBelow root := by
  intro id _ p hp _ _
  have hbelow : parentRank p < parentRank id := parentRank_lt hp
  have hrank : parentRank id ≤ 1 := by
    unfold parentRank
    split <;> decide
  refine .inl (Option.eq_none_iff_forall_ne_some.2 ?_)
  intro parent hparent
  have habove : parentRank parent < parentRank p := parentRank_lt hparent
  omega

/-- **Larger requests.** In a flat registry, if all resources of one request are in another too, then all resources of
the first answer are in the second; and what the first request asks for and the second answer leaves out, was left out
of the first answer, for the same reason. The built-in registry is flat for all page sizes and below every root. -/
theorem larger_requests_cover_more :
    (∀ (r : Registry) (q : Request) (ids : List ResourceId) (out out' : CompiledQuery), r.FlatBelow q.root →
      q.ids ⊆ ids → q.compile r = .ok out → ({ q with ids } : Request).compile r = .ok out' →
        out.resources ⊆ out'.resources ∧ ∀ s ∈ out'.skipped, s.id ∈ q.ids → s ∈ out.skipped) ∧
    ∀ limits root, (GitHub.registry limits).FlatBelow root := by
  constructor
  · intro r q ids out out' hflat hsub hout hout'
    obtain ⟨m, d, ha⟩ := Request.compile_eq_ok_iff.1 hout
    obtain ⟨m', d', ha'⟩ := Request.compile_eq_ok_iff.1 hout'
    constructor
    · intro id hid
      exact ha'.mem_resources_iff.2 (hflat.covers_mono hsub (ha.mem_resources_iff.1 hid))
    · intro s hs hids
      obtain ⟨⟨-, hno⟩, hreason⟩ := ha'.mem_skipped_iff_reason.1 hs
      refine ha.mem_skipped_iff_reason.2 ⟨⟨hids, ?_⟩, hreason⟩
      intro hc
      exact hno (hflat.covers_mono hsub hc)
  · exact GitHub.registry_flat

/-- issues without their repositories, and a team that the organization has not -/
def issuesRequest : Request := { root := ⟨"org"⟩, ids := [⟨"team"⟩, ⟨"issues"⟩] }

def issuesAnswer : CompiledQuery where
  document :=
    "query ($login: String!, $reposCursor: String) \x7b\norg(login: $login) \x7b\n" ++
      "repos(after: $reposCursor) \x7b\nissues\n\x7d\n\x7d\n...rateLimit\n\x7d"
  declarations := [⟨"login", "String!"⟩, ⟨"reposCursor", "String"⟩]
  resources := [⟨"org"⟩, ⟨"repos"⟩, ⟨"issues"⟩]
  skipped := [⟨⟨"team"⟩, .unregistered⟩]

/-- the repositories are requested too, before the issues -/
def wholeOrg : List ResourceId := [⟨"repos"⟩, ⟨"members"⟩, ⟨"issues"⟩, ⟨"team"⟩]

def wholeOrgAnswer : CompiledQuery where
  document :=
    "query ($login: String!, $reposCursor: String, $membersCursor: String) \x7b\norg(login: $login) \x7b\n" ++
      "repos(after: $reposCursor) \x7b\nissues\n\x7d\nmembers(after: $membersCursor)\n\x7d\n...rateLimit\n\x7d"
  declarations := [⟨"login", "String!"⟩, ⟨"reposCursor", "String"⟩, ⟨"membersCursor", "String"⟩]
  resources := [⟨"org"⟩, ⟨"repos"⟩, ⟨"members"⟩, ⟨"issues"⟩]
  skipped := [⟨⟨"team"⟩, .unregistered⟩]

theorem issues_kept_in_whole_org :
    orgRegistry.FlatBelow ⟨"org"⟩ ∧ issuesRequest.ids ⊆ wholeOrg ∧
      issuesRequest.compile orgRegistry = .ok issuesAnswer ∧
      ({ issuesRequest with ids := wholeOrg } : Request).compile orgRegistry = .ok wholeOrgAnswer ∧
      issuesAnswer.resources ⊆ wholeOrgAnswer.resources ∧
      ∀ s ∈ wholeOrgAnswer.skipped, s.id ∈ issuesRequest.ids → s ∈ issuesAnswer.skipped := by
  have hflat : orgRegistry.FlatBelow ⟨"org"⟩ := by decide
  have hsub : issuesRequest.ids ⊆ wholeOrg := by decide
  have hsmall : issuesRequest.compile orgRegistry = .ok issuesAnswer := by decide +kernel
  have hlarge : ({ issuesRequest with ids := wholeOrg } : Request).compile orgRegistry = .ok wholeOrgAnswer := by
    decide +kernel
  exact ⟨hflat, hsub, hsmall, hlarge, larger_requests_cover_more.1 _ _ _ _ _ hflat hsub hsmall hlarge⟩

/-! ## Requests for what is covered -/

namespace Registry.FlatBelow

/-- The top level is at the top level again: a parent selected on behalf of a child is now requested, and reached as it
was; and no further parent is selected, since the parents of all requested resources are there. -/
theorem topLevel_again_iff (h : r.FlatBelow root)
    (hw : ∀ id, id ∈ wanted' ↔ r.TopLevel root wanted id ∨ r.Embedded root wanted id) {t : ResourceId} :
    r.TopLevel root wanted' t ↔ r.TopLevel root wanted t := by
  constructor
  · rintro (⟨htw, hreg, hreach⟩ | ⟨hreg, hno, hne, id, hid, hp⟩)
    · -- covered as embedded only, it was requested before, and reached then as it is now
      rcases (hw t).1 htw with ht | ⟨htw, -⟩
      · exact ht
      · exact .inl ⟨htw, hreg, hreach⟩
    · -- a parent of something covered is covered itself, so none is left to be selected on behalf of a child
      exfalso
      rcases (hw id).1 hid with ht | ⟨hidw, -⟩
      · rcases h.reachedFrom_of_topLevel ht with hnone | hroot
        · rw [hp] at hnone
          cases hnone
        · rw [hp] at hroot
          exact hne (Option.some.inj hroot)
      · exact hno ((hw t).2 (.inl (h.topLevel_of_parent hidw hp hreg hne)))
  · intro ht
    exact .inl ⟨(hw t).2 (.inl ht), mem_ids_of_topLevel ht, h.reachedFrom_of_topLevel ht⟩

/-- what has a place again is what had one -/
theorem topLevel_or_embedded_again_iff (h : r.FlatBelow root)
    (hw : ∀ id, id ∈ wanted' ↔ r.TopLevel root wanted id ∨ r.Embedded root wanted id) {id : ResourceId} :
    r.TopLevel root wanted' id ∨ r.Embedded root wanted' id ↔
      r.TopLevel root wanted id ∨ r.Embedded root wanted id := by
  constructor
  · rintro (ht | he)
    · exact .inl ((h.topLevel_again_iff hw).1 ht)
    · exact (hw id).1 he.1
  · rintro (ht | he)
    · exact .inl ((h.topLevel_again_iff hw).2 ht)
    · have ⟨_, hreg, t, htreg, ht, hslot⟩ := he
      exact .inr ⟨(hw _).2 (.inr he), hreg, t, htreg, (h.topLevel_again_iff hw).2 ht, hslot⟩

/-- a request for all that is covered covers the same -/
theorem coversSame_again (h : r.FlatBelow q.root) {ids : List ResourceId} (hids : ∀ id, id ∈ ids ↔ q.Covers r id)
    (strict : Bool) : q.CoversSame r { q with ids, strict } := by
  have hne : ∀ id, r.TopLevel q.root q.wanted id ∨ r.Embedded q.root q.wanted id → id ≠ q.root := by
    rintro id (ht | he) rfl
    · exact not_topLevel_root Request.root_notMem_wanted ht
    · exact Request.root_notMem_wanted he.1
  have hw : ∀ id, id ∈ ({ q with ids, strict } : Request).wanted ↔
      r.TopLevel q.root q.wanted id ∨ r.Embedded q.root q.wanted id := by
    intro id
    rw [Request.mem_wanted_iff, hids]
    constructor
    · rintro ⟨hc, hroot⟩
      exact hc.resolve_left hroot
    · intro hc
      exact ⟨.inr hc, hne id hc⟩
  exact ⟨rfl, fun id => or_congr Iff.rfl (h.topLevel_or_embedded_again_iff hw).symm⟩

end Registry.FlatBelow

/-- **Answers requested again.** In a flat registry, let the resources of an answer be requested. The answer to that,
strict or not, leaves out nothing, and has the same resources and the same variables. -/
theorem answers_request_themselves {out : CompiledQuery} (hflat : r.FlatBelow q.root) (h : q.compile r = .ok out) :
    ∃ out', (∀ strict, ({ q with ids := out.resources, strict } : Request).compile r = .ok out') ∧
      out'.skipped = [] ∧ out'.resources.Perm out.resources ∧ out'.declarations.Perm out.declarations := by
  obtain ⟨m, d, ha⟩ := Request.compile_eq_ok_iff.1 h
  obtain ⟨hroot, hacyclic, hagree, -⟩ := Request.not_causes_of_ok h
  have hids : ∀ id, id ∈ out.resources ↔ q.Covers r id := fun _ => ha.mem_resources_iff
  have hsame := hflat.coversSame_again hids true
  -- no cycle, no conflict and nothing left out: the strict request has an answer
  obtain ⟨out', hout'⟩ : ∃ out', ({ q with ids := out.resources, strict := true } : Request).compile r = .ok out' := by
    refine Request.exists_compile_ok_iff.2 ⟨hroot, ?_, ?_, ?_⟩
    · rintro ⟨id, hfollow, hback⟩
      have hcovers : q.Covers r id := by
        rcases hfollow with hid | ⟨hid, -⟩
        · exact .inl hid
        · exact (hids id).1 hid
      exact Request.not_revisits_of_covers hacyclic hcovers hback
    · exact fun hconflict => hagree (hsame.conflicting_iff.2 hconflict)
    · rintro - ⟨id, hid, hno⟩
      exact hno ((hsame.covers id).1 ((hids id).1 hid))
  obtain ⟨m', d', ha'⟩ := Request.compile_eq_ok_iff.1 hout'
  obtain rfl : m = m' := Option.some.inj (ha.registered.symm.trans ha'.registered)
  refine ⟨out', ?_, ha'.strict rfl, (hsame.resources_perm ha ha').symm, (hsame.declarations_perm ha ha').symm⟩
  intro strict
  cases strict with
  | true => exact hout'
  | false => exact Request.lenient_of_compile hout'

/-- the repositories, selected on behalf of their collaborators, are requested the second time -/
theorem org_answer_requests_itself :
    orgRegistry.FlatBelow ⟨"org"⟩ ∧ orgRequest.compile orgRegistry = .ok orgAnswer ∧
      ⟨"repos"⟩ ∉ orgRequest.ids ∧ ⟨"repos"⟩ ∈ orgAnswer.resources ∧
      ∃ out, (∀ strict,
          ({ orgRequest with ids := orgAnswer.resources, strict } : Request).compile orgRegistry = .ok out) ∧
        out.skipped = [] ∧ out.resources.Perm orgAnswer.resources ∧
        out.declarations.Perm orgAnswer.declarations := by
  have hflat : orgRegistry.FlatBelow ⟨"org"⟩ := by decide
  exact ⟨hflat, org_compiles, by decide, by decide, answers_request_themselves hflat org_compiles⟩

/-- **A registry that is not flat.** Labels are reached through issues, and issues through repositories. On behalf of
the labels alone, the issues are at the top level. Requested as well, the issues are embedded in the repositories, one
level deep, and the labels are left out. -/
theorem chain_loses_labels :
    ¬ chainRegistry.FlatBelow ⟨"hub"⟩ ∧ chainRequest.compile chainRegistry = .ok chainAnswer ∧
      chainRequest.ids ⊆ chainAnswer.resources ∧
      ({ chainRequest with ids := chainAnswer.resources } : Request).compile chainRegistry = .ok {
        document := "query \x7b\nhub \x7b\nrepos \x7b\nissues \x7b\n\x7d\n\x7d\n\x7d\n...rateLimit\n\x7d"
        declarations := []
        resources := [⟨"hub"⟩, ⟨"repos"⟩, ⟨"issues"⟩]
        skipped := [⟨⟨"labels"⟩, .unreachable⟩] } := by
  exact ⟨by decide, by decide +kernel, by decide, by decide +kernel⟩

end ResourceQuery
