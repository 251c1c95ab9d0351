/-
The variables of a document, and the resources they come from.

A draft has merged the root's declarations and then those of each selection: its own, followed by those of what it
embeds. Read off the links of the registry, this is one list of declarations, and the header has its first occurrences.

Results:
- `draft_merged`: a finished draft holds the merge of all declarations it has met.
- `mem_declarationsMet_iff`: they are the declarations of the root, the top level and what is embedded.
- `CoversSame.declarations_perm`: requests that cover the same have the same variables in their answers.
- `header_declarations`: the variables of an answer have distinct names, are those that its resources declare, and come
  in the order in which the document meets them.
-/
import ResourceQuery.Proofs.Layout
import ResourceQuery.Proofs.Merging

namespace ResourceQuery

variable {r : Registry} {root : ResourceId} {wanted : List ResourceId} {q : Request} {d d' : Draft} {m : Metadata}

/-! ## What a draft has merged -/

namespace Draft

/-- the declarations of the root `m` and of the selections, as they come -/
def met (d : Draft) (m : Metadata) : List Variable := m.declarations ++ d.selections.flatMap Selection.declarations

/-- the variables of the draft are the merge of all declarations it has met -/
def Merged (d : Draft) (m : Metadata) : Prop := ({} : VariableSet).merge (d.met m) = .ok d.declared

theorem merged_nil {declared : VariableSet} (h : ({} : VariableSet).merge m.declarations = .ok declared) :
    Merged ⟨declared, []⟩ m := by
  simpa [Merged, met] using h

end Draft

namespace Registry

theorem place_merged {id : ResourceId} (hd : d.Merged m) (h : r.place root wanted d id = .ok d') : d'.Merged m := by
  rcases (place_cases h).2 with ⟨-, rfl⟩ | ⟨t, n, -, -, ⟨-, rfl⟩ | ⟨-, declared, hmerge, rfl⟩⟩
  · exact hd
  · exact hd
  · have hmet : Draft.met ⟨declared, d.selections ++ [r.selection wanted t n]⟩ m =
        d.met m ++ (r.selection wanted t n).declarations := by
      simp [Draft.met, List.append_assoc]
    rw [Draft.Merged, hmet, VariableSet.merge_append_of_ok hd]
    exact hmerge

theorem foldlM_place_merged {ids : List ResourceId} (hd : d.Merged m)
    (h : ids.foldlM (r.place root wanted) d = .ok d') : d'.Merged m := by
  induction ids generalizing d with
  | nil =>
    cases h
    exact hd
  | cons id ids ih =>
    obtain ⟨d₁, h₁, h⟩ := except_bind_eq_ok.1 h
    exact ih (place_merged hd h₁) h

end Registry

namespace Request

theorem draft_merged (h : q.draft r m = .ok d) : d.Merged m := by
  obtain ⟨-, -, h⟩ := except_bind_eq_ok.1 h
  obtain ⟨declared, hdeclared, h⟩ := except_bind_eq_ok.1 h
  exact Registry.foldlM_place_merged (Draft.merged_nil (mapError_eq_ok.1 hdeclared)) h

/-! ## The declarations by the links of the registry -/

/-- the requested children that the fragment of `m` has a slot for -/
def embeddedChildren (q : Request) (r : Registry) (m : Metadata) : List (ResourceId × Metadata) :=
  if m.fragment.acceptsChildren then q.requestedChildren r m else []

/-- the root's declarations; then for each member of the top level its own, and those of the children it embeds -/
def declarationsMet (q : Request) (r : Registry) (root : Metadata) : List Variable :=
  root.declarations ++ (q.topLevel r).flatMap fun e =>
    e.2.declarations ++ (q.embeddedChildren r e.2).flatMap fun c => c.2.declarations

/-- the root, a member of the top level, or embedded in one -/
def Covers (q : Request) (r : Registry) (id : ResourceId) : Prop :=
  id = q.root ∨ r.TopLevel q.root q.wanted id ∨ r.Embedded q.root q.wanted id

/-- declared by a resource that the request covers -/
def Declares (q : Request) (r : Registry) (v : Variable) : Prop :=
  ∃ id m, q.Covers r id ∧ r.get? id = some m ∧ v ∈ m.declarations

theorem mem_embeddedChildren_iff {c : ResourceId × Metadata} :
    c ∈ q.embeddedChildren r m ↔
      m.fragment.acceptsChildren = true ∧ c.1 ∈ m.children ∧ c.1 ∈ q.wanted ∧ r.get? c.1 = some c.2 := by
  have hchild : c ∈ q.requestedChildren r m ↔ c.1 ∈ m.children ∧ c.1 ∈ q.wanted ∧ r.get? c.1 = some c.2 := by
    simp only [requestedChildren, List.mem_filterMap, mem_wanted_iff]
    constructor
    · rintro ⟨x, hx, hc⟩
      split at hc
      · rename_i hw
        obtain ⟨n, hn, rfl⟩ := Option.map_eq_some_iff.1 hc
        exact ⟨hx, hw, hn⟩
      · cases hc
    · rintro ⟨hx, hw, hn⟩
      exact ⟨c.1, hx, by simp [hw, hn]⟩
  unfold embeddedChildren
  split
  · rename_i hm
    simp [hchild, hm]
  · rename_i hm
    simp [hm]

/-- what is embedded, by the entries that embed it -/
theorem embedded_iff_mem_embeddedChildren {c : ResourceId} {n : Metadata} (hn : r.get? c = some n) :
    r.Embedded q.root q.wanted c ↔ ∃ e ∈ q.topLevel r, (c, n) ∈ q.embeddedChildren r e.2 := by
  simp only [mem_topLevel_iff, mem_embeddedChildren_iff]
  constructor
  · rintro ⟨hw, -, t, -, ht, k, hk, hacc, hc⟩
    exact ⟨(t, k), ⟨ht, hk⟩, hacc, hc, hw, hn⟩
  · rintro ⟨⟨t, k⟩, ⟨ht, hk⟩, hacc, hc, hw, -⟩
    exact ⟨hw, Registry.mem_ids_of_get? hn, t, Registry.mem_ids_of_get? hk, ht, k, hk, hacc, hc⟩

/-- what is covered, by the order of the document: the root, then each member of the top level and what it embeds -/
theorem exists_covered_iff {root : Metadata} (hroot : r.get? q.root = some root) (P : Metadata → Prop) :
    (∃ id n, q.Covers r id ∧ r.get? id = some n ∧ P n) ↔
      P root ∨ ∃ e ∈ q.topLevel r, P e.2 ∨ ∃ c ∈ q.embeddedChildren r e.2, P c.2 := by
  constructor
  · rintro ⟨id, n, rfl | ht | hemb, hn, hP⟩
    · rw [hroot] at hn
      cases hn
      exact .inl hP
    · exact .inr ⟨(id, n), mem_topLevel_iff.2 ⟨ht, hn⟩, .inl hP⟩
    · obtain ⟨e, he, hc⟩ := (embedded_iff_mem_embeddedChildren hn).1 hemb
      exact .inr ⟨e, he, .inr ⟨(id, n), hc, hP⟩⟩
  · rintro (hP | ⟨e, he, hP | ⟨c, hc, hP⟩⟩)
    · exact ⟨q.root, root, .inl rfl, hroot, hP⟩
    · obtain ⟨ht, hget⟩ := mem_topLevel_iff.1 he
      exact ⟨e.1, e.2, .inr (.inl ht), hget, hP⟩
    · have hget : r.get? c.1 = some c.2 := (mem_embeddedChildren_iff.1 hc).2.2.2
      exact ⟨c.1, c.2, .inr (.inr ((embedded_iff_mem_embeddedChildren hget).2 ⟨e, he, hc⟩)), hget, hP⟩

/-- the declarations met are those of the root, the top level and what is embedded -/
theorem mem_declarationsMet_iff {root : Metadata} (hroot : r.get? q.root = some root) {v : Variable} :
    v ∈ q.declarationsMet r root ↔ q.Declares r v := by
  simp only [declarationsMet, List.mem_append, List.mem_flatMap]
  exact (exists_covered_iff hroot (v ∈ ·.declarations)).symm

theorem declarations_selection (q : Request) (r : Registry) (t : ResourceId) (m : Metadata) :
    (r.selection q.wanted t m).declarations =
      m.declarations ++ (q.embeddedChildren r m).flatMap fun c => c.2.declarations := by
  rw [embeddedChildren, ← embeddable_eq]
  rfl

theorem declarationsMet_eq (q : Request) (r : Registry) (m : Metadata) :
    q.declarationsMet r m =
      m.declarations ++
        ((q.topLevel r).map fun e => r.selection q.wanted e.1 e.2).flatMap Selection.declarations := by
  rw [declarationsMet, List.flatMap_map]
  simp only [declarations_selection]

theorem draft_met (h : q.draft r m = .ok d) : d.met m = q.declarationsMet r m := by
  rw [Draft.met, declarationsMet_eq, draft_selections h]

theorem Answers.declarations_eq {out : CompiledQuery} (h : q.Answers r m d out) :
    out.declarations = (q.declarationsMet r m).eraseDups := by
  rw [h.declarations, ← draft_met h.drafted]
  exact (VariableSet.merge_empty_eq_ok_iff.1 (draft_merged h.drafted)).2

theorem Answers.mem_declarations_iff {out : CompiledQuery} (h : q.Answers r m d out) {v : Variable} :
    v ∈ out.declarations ↔ q.Declares r v := by
  rw [h.declarations_eq, List.mem_eraseDups, mem_declarationsMet_iff h.registered]

/-! ## Requests that cover the same -/

/-- the same root, and the same resources below it -/
structure CoversSame (q : Request) (r : Registry) (q' : Request) : Prop where
  root : q.root = q'.root
  covers : ∀ id, q.Covers r id ↔ q'.Covers r id

namespace CoversSame

variable {q' : Request} {out out' : CompiledQuery}

theorem declares_iff (h : q.CoversSame r q') {v : Variable} : q.Declares r v ↔ q'.Declares r v := by
  simp only [Declares, h.covers]

theorem resources_perm (h : q.CoversSame r q') (ha : q.Answers r m d out) (ha' : q'.Answers r m d' out') :
    out.resources.Perm out'.resources := by
  apply (List.perm_ext_iff_of_nodup ha.nodup_resources ha'.nodup_resources).2
  intro id
  rw [ha.mem_resources_iff, ha'.mem_resources_iff]
  exact h.covers id

theorem declarations_perm (h : q.CoversSame r q') (ha : q.Answers r m d out) (ha' : q'.Answers r m d' out') :
    out.declarations.Perm out'.declarations := by
  have hnodup : out.declarations.Nodup ∧ out'.declarations.Nodup := by
    rw [ha.declarations, ha'.declarations]
    exact ⟨d.declared.nodup_toList, d'.declared.nodup_toList⟩
  apply (List.perm_ext_iff_of_nodup hnodup.1 hnodup.2).2
  intro v
  rw [ha.mem_declarations_iff, ha'.mem_declarations_iff, h.declares_iff]

end CoversSame

end Request

/-! ## Main result -/

/-- **Variables of a document.** The declarations of an answer have distinct names, and they are exactly those of its
resources. They stand in first-seen order: the root's come first, and then, for each member of the top level, its own
and those of the children it embeds. -/
theorem header_declarations {out : CompiledQuery} (h : q.compile r = .ok out) :
    (out.declarations.map Variable.name).Nodup ∧
    (∀ v, v ∈ out.declarations ↔ ∃ id ∈ out.resources, ∃ m, r.get? id = some m ∧ v ∈ m.declarations) ∧
    ∃ root, r.get? q.root = some root ∧ out.declarations = (q.declarationsMet r root).eraseDups := by
  obtain ⟨root, d, ha⟩ := Request.compile_eq_ok_iff.1 h
  refine ⟨?_, ?_, root, ha.registered, ha.declarations_eq⟩
  · rw [ha.declarations]
    exact d.declared.names_nodup
  · intro v
    rw [ha.mem_declarations_iff, Request.Declares]
    simp only [ha.mem_resources_iff]
    constructor
    · rintro ⟨id, m, hid, hm, hv⟩
      exact ⟨id, hid, m, hm, hv⟩
    · rintro ⟨id, hid, m, hm, hv⟩
      exact ⟨id, m, hid, hm, hv⟩

/-- an organization with pages of members and of repositories; a repository embeds its issues and its collaborators,
who are asked for by login again -/
def orgRegistry : Registry := .ofList {} [
  (⟨"org"⟩, { declarations := [⟨"login", "String!"⟩], fragment := .nested "org(login: $login) \x7b\n" "\x7d" }),
  (⟨"members"⟩, { declarations := [⟨"membersCursor", "String"⟩], fragment := .leaf "members(after: $membersCursor)" }),
  (⟨"repos"⟩,
    { declarations := [⟨"reposCursor", "String"⟩]
      fragment := .nested "repos(after: $reposCursor) \x7b\n" "\x7d"
      children := [⟨"issues"⟩, ⟨"collaborators"⟩] }),
  (⟨"issues"⟩, { fragment := .leaf "issues", parent := some ⟨"repos"⟩ }),
  (⟨"collaborators"⟩,
    { declarations := [⟨"login", "String!"⟩, ⟨"page", "Int"⟩]
      fragment := .leaf "collaborators(first: $page, login: $login)"
      parent := some ⟨"repos"⟩ })]

def orgRequest : Request := { root := ⟨"org"⟩, ids := [⟨"collaborators"⟩, ⟨"members"⟩, ⟨"issues"⟩] }

def orgAnswer : CompiledQuery where
  document :=
    "query ($login: String!, $reposCursor: String, $page: Int, $membersCursor: String) \x7b\n" ++
      "org(login: $login) \x7b\nrepos(after: $reposCursor) \x7b\nissues\n" ++
      "collaborators(first: $page, login: $login)\n\x7d\n" ++
      "members(after: $membersCursor)\n\x7d\n...rateLimit\n\x7d"
  declarations := [⟨"login", "String!"⟩, ⟨"reposCursor", "String"⟩, ⟨"page", "Int"⟩, ⟨"membersCursor", "String"⟩]
  resources := [⟨"org"⟩, ⟨"repos"⟩, ⟨"members"⟩, ⟨"issues"⟩, ⟨"collaborators"⟩]
  skipped := []

theorem org_compiles : orgRequest.compile orgRegistry = .ok orgAnswer := by decide +kernel

theorem org_header_declarations :
    orgRequest.compile orgRegistry = .ok orgAnswer ∧ (orgAnswer.declarations.map Variable.name).Nodup ∧
      (∀ v, v ∈ orgAnswer.declarations ↔
        ∃ id ∈ orgAnswer.resources, ∃ m, orgRegistry.get? id = some m ∧ v ∈ m.declarations) ∧
      ∃ root, orgRegistry.get? orgRequest.root = some root ∧
        orgAnswer.declarations = (orgRequest.declarationsMet orgRegistry root).eraseDups :=
  ⟨org_compiles, header_declarations org_compiles⟩

end ResourceQuery
