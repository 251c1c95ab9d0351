/-
The built-in registry, for all page sizes.

The page sizes are written into the texts of fragments and nowhere else. So the links and the declarations of the
entries are closed data, and what is said of them is evaluated once. Of the texts only the uses of variables matter: a
page size is written in digits, and each kind of connection uses the same names whatever it is.

Results:
- `entries_outline`: apart from the texts of fragments, the entries are the same for all page sizes.
- `exact_entries`: each entry is self-consistent, and has no dollar sign without a name.
- `registry_valid`: the registry is well-formed.
- `compile_registry_ok`: a lenient request below a registered root has an answer.
- `variables_used_iff_declared`: a document of self-consistent entries uses the variables that it declares; and the
  built-in entries are of that kind.
-/
import ResourceQuery.Proofs.Failure
import ResourceQuery.Proofs.VariableUse
import ResourceQuery.Registry.GitHub

namespace ResourceQuery

namespace Metadata

/-- all but the text of the fragment -/
def outline (m : Metadata) : Metadata :=
  { m with fragment := if m.fragment.acceptsChildren then .nested "" "" else .leaf "" }

theorem acceptsChildren_outline (m : Metadata) : m.outline.fragment.acceptsChildren = m.fragment.acceptsChildren := by
  unfold outline
  cases m.fragment.acceptsChildren <;> rfl

/-- self-consistent, and with a name after every dollar sign -/
def Exact (m : Metadata) : Prop := m.SelfConsistent ∧ DollarsNamed m.text

/-- an entry is exact if a scan of its text gives the names declared with it -/
theorem exact_of_runs {m : Metadata} (names : List String) (hruns : runs m.text.toList = names.map String.toList)
    (hdeclared : ∀ name, name ∈ names ↔ name ∈ m.declaredNames) (hnames : ∀ name ∈ names, IsName name)
    (hopens : m.fragment.OpensLine) : m.Exact := by
  have hused : ∀ name, name ∈ usedNames m.text ↔ name ∈ names := by
    intro name
    rw [mem_usedNames_iff, hruns]
    simp only [List.mem_map, String.toList_inj, exists_eq_right]
    exact and_iff_right_of_imp fun h => (hnames name h).1
  refine ⟨⟨?_, ?_, ?_, hopens⟩, ?_⟩
  · exact fun name h => (hdeclared name).1 ((hused name).1 h)
  · exact fun name h => (hused name).2 ((hdeclared name).2 h)
  · exact fun name h => hnames name ((hdeclared name).2 h)
  · rw [DollarsNamed, hruns]
    intro hmem
    obtain ⟨name, hname, hnil⟩ := List.mem_map.1 hmem
    exact (hnames name hname).1 (by simpa using hnil)

end Metadata

namespace GitHub

variable {field cursor nodeFields : String} {edgeFields : Option String}

/-! ## Texts -/

theorem notMem_digits {c : Char} (hc : c.isDigit = false) (n : Nat) : c ∉ Nat.toDigits 10 n := by
  intro hmem
  rw [Nat.isDigit_of_mem_toDigits (by decide) (by decide) hmem] at hc
  cases hc

/-- the arguments for a page use its cursor, and what follows them is scanned on its own -/
theorem runs_pageArguments {before after : String} (hbefore : '$' ∉ before.toList) (page : UInt32)
    (hcursor : IsName cursor) (hafter : EndsName after.toList) :
    runs (before ++ pageArguments page cursor ++ after).toList = cursor.toList :: runs after.toList := by
  have hfirst : '$' ∉ (before ++ "(first: " ++ toString page.toNat ++ ", after: ").toList := by
    simp [hbefore, notMem_digits (c := '$') (by decide) page.toNat]
  have htext : (before ++ pageArguments page cursor ++ after).toList =
      (before ++ "(first: " ++ toString page.toNat ++ ", after: ").toList ++
        '$' :: (cursor.toList ++ after.toList) := by
    simp [pageArguments]
  rw [htext, runs_append_of_notMem hfirst, runs_name hcursor hafter]

/-- An entry with a page of a field, which declares the cursor of the page and what the rest of the text uses. -/
theorem exact_page {m : Metadata} {before after : String} {page : UInt32} (names : List String)
    (htext : m.text = before ++ pageArguments page cursor ++ after) (hbefore : '$' ∉ before.toList)
    (hafter : EndsName after.toList) (hruns : runs after.toList = names.map String.toList)
    (hdeclared : ∀ name, name ∈ cursor :: names ↔ name ∈ m.declaredNames)
    (hnames : ∀ name ∈ cursor :: names, IsName name) (hopens : m.fragment.OpensLine) : m.Exact := by
  refine Metadata.exact_of_runs (cursor :: names) ?_ hdeclared hnames hopens
  rw [htext, runs_pageArguments hbefore page (hnames cursor List.mem_cons_self) hafter, hruns, List.map_cons]

theorem render_connection {page : UInt32} :
    (connection field page cursor nodeFields edgeFields).render "" = field ++ pageArguments page cursor ++
      (") \x7b\nedges \x7b\nnode \x7b\n" ++ nodeFields ++ "\n" ++
        ("\x7d\n" ++ (edgeFields.map (· ++ "\n")).getD "" ++ "\x7d\n" ++ pageInfo ++ "\n\x7d")) := by
  simp [connection, Fragment.render_nested_empty, String.append_assoc]

theorem render_inlineConnection {onType : String} {page : UInt32} :
    (inlineConnection onType field page cursor nodeFields).render "" =
      "... on " ++ onType ++ " \x7b\n" ++ field ++ pageArguments page cursor ++
        (") \x7b\ntotalCount\nedges \x7b\nnode \x7b\n" ++ nodeFields ++ "\n\x7d\n\x7d\n" ++ pageInfo ++
          "\n\x7d\n\x7d") := by
  simp [inlineConnection, String.append_assoc]

theorem render_issueSearch {page : UInt32} :
    (issueSearch page cursor nodeFields).render "" =
      "search" ++ pageArguments page cursor ++ (", type: ISSUE, query: $query" ++
        (") \x7b\nissueCount\nedges \x7b\nnode \x7b\n" ++ nodeFields ++ "\n" ++
          ("\x7d\n\x7d\n" ++ pageInfo ++ "\n\x7d"))) := by
  have harguments : ", type: ISSUE, query: $query) \x7b\nissueCount\nedges \x7b\nnode \x7b\n" =
      ", type: ISSUE, query: $query" ++ ") \x7b\nissueCount\nedges \x7b\nnode \x7b\n" := by simp
  rw [issueSearch, Fragment.render_nested_empty, harguments]
  simp only [String.append_assoc]

/-- the line of the fields of an edge, if there are any -/
theorem notMem_edgeLine {c : Char} (hbreak : c ≠ '\n') (hedge : c ∉ (edgeFields.getD "").toList) :
    c ∉ ((edgeFields.map (· ++ "\n")).getD "").toList := by
  cases edgeFields with
  | none => simp
  | some edge => simpa [hbreak] using hedge

/-- a connection uses its cursor -/
theorem exact_connection {m : Metadata} {page : UInt32} (hfield : '$' ∉ field.toList) (hcursor : IsName cursor)
    (hnode : '$' ∉ nodeFields.toList) (hedge : '$' ∉ (edgeFields.getD "").toList)
    (hm : m.fragment = connection field page cursor nodeFields edgeFields) (hnames : m.declaredNames = [cursor]) :
    m.Exact := by
  have htext := (congrArg (Fragment.render · "") hm).trans render_connection
  have hedges := notMem_edgeLine (by decide) hedge
  refine exact_page [] htext hfield ?_ ?_ ?_ ?_ ?_
  · simp [EndsName, isNameChar]
  · exact runs_eq_nil (by simp [hnode, hedges, pageInfo])
  · simp [hnames]
  · simpa using hcursor
  · rw [hm]
    exact Fragment.opensLine_nested _ _

/-- so does a connection on one type of node -/
theorem exact_inlineConnection {m : Metadata} {page : UInt32} {onType : String} (htype : '$' ∉ onType.toList)
    (hfield : '$' ∉ field.toList) (hcursor : IsName cursor) (hnode : '$' ∉ nodeFields.toList)
    (hm : m.fragment = inlineConnection onType field page cursor nodeFields) (hnames : m.declaredNames = [cursor]) :
    m.Exact := by
  have htext := (congrArg (Fragment.render · "") hm).trans render_inlineConnection
  refine exact_page [] htext ?_ ?_ ?_ ?_ ?_ ?_
  · simp [htype, hfield]
  · simp [EndsName, isNameChar]
  · exact runs_eq_nil (by simp [hnode, pageInfo])
  · simp [hnames]
  · simpa using hcursor
  · rw [hm]
    trivial

/-- a search uses its cursor, and the variable `query` -/
theorem exact_issueSearch {m : Metadata} {page : UInt32} (hcursor : IsName cursor) (hnode : '$' ∉ nodeFields.toList)
    (hm : m.fragment = issueSearch page cursor nodeFields) (hnames : m.declaredNames = ["query", cursor]) :
    m.Exact := by
  have htext := (congrArg (Fragment.render · "") hm).trans render_issueSearch
  have hquery : runs ", type: ISSUE, query: $query".toList = ["query".toList] := by decide
  have hselection : runs (") \x7b\nissueCount\nedges \x7b\nnode \x7b\n" ++ nodeFields ++ "\n" ++
      ("\x7d\n\x7d\n" ++ pageInfo ++ "\n\x7d")).toList = [] :=
    runs_eq_nil (by simp [hnode, pageInfo])
  refine exact_page ["query"] htext (by decide) ?_ ?_ ?_ ?_ ?_
  · simp [EndsName, isNameChar]
  · rw [String.toList_append, runs_append _ (by simp [EndsName, isNameChar]), hquery, hselection]
    rfl
  · intro name
    rw [hnames, List.mem_pair, List.mem_pair, or_comm]
  · intro name hname
    rcases List.mem_pair.1 hname with rfl | rfl
    · exact hcursor
    · decide
  · rw [hm]
    exact Fragment.opensLine_nested _ _

section

variable {limits : PageLimits} {id : ResourceId} {onType : String} {parent : Option ResourceId}
  {children : List ResourceId}

theorem exact_connectionEntry (hid : IsName id.name) (hnode : '$' ∉ nodeFields.toList)
    (hedge : '$' ∉ (edgeFields.getD "").toList) :
    (connectionEntry limits id nodeFields edgeFields parent children).2.Exact :=
  exact_connection (hid.notMem (by decide)) hid hnode hedge rfl rfl

theorem exact_inlineEntry (hid : IsName id.name) (htype : '$' ∉ onType.toList) (hnode : '$' ∉ nodeFields.toList) :
    (inlineEntry limits id onType nodeFields).2.Exact :=
  exact_inlineConnection htype (hid.notMem (by decide)) hid hnode rfl rfl

theorem exact_searchEntry (hid : IsName id.name) (hnode : '$' ∉ nodeFields.toList) :
    (searchEntry limits id nodeFields children).2.Exact :=
  exact_issueSearch hid hnode rfl rfl

end

theorem isName_ids : ∀ id ∈ ids, IsName id.name := by decide

/-- each entry uses exactly the variables that it declares -/
theorem exact_entries (limits : PageLimits) : ∀ e ∈ entries limits, e.2.Exact := by
  simp only [entries, List.forall_mem_cons, List.not_mem_nil, false_imp_iff, implies_true, and_true]
  refine ⟨?_, ?_, ?_, ?_, ?_, ?_, ?_, ?_, ?_, ?_, ?_, ?_, ?_, ?_, ?_, ?_⟩
  -- a pull request and an organization are no pages: their texts are closed and are scanned as they stand
  · refine Metadata.exact_of_runs ["repoName", "repoOwner", "pullRequestNumber"] ?_ ?_ (by decide) ?_
    · have hrest : runs ("...pullRequestFields\n" ++ "\x7d\n\x7d").toList = [] := by
        refine runs_eq_nil ?_
        rw [String.toList_append, List.mem_append, not_or]
        exact ⟨notMem_ofList (by decide), notMem_ofList (by decide)⟩
      rw [Metadata.text, Fragment.render_nested_empty, String.append_assoc, String.toList_append,
        runs_append _ (by simp [EndsName, isNameChar]), hrest, List.append_nil]
      exact (congrArg runs String.toList_ofList).trans (by decide +kernel)
    · intro name
      simp only [Metadata.declaredNames, List.map_cons, List.map_nil, List.mem_cons, List.not_mem_nil, or_false]
      tauto
    · simp only [Fragment.OpensLine, String.toList_append]
      rw [List.getLast?_append_of_ne_nil _ (by simp)]
      simp
  · exact exact_searchEntry (isName_ids pullRequests (by decide)) (notMem_ofList (by decide))
  · refine exact_inlineEntry (isName_ids commits (by decide)) ?_ ?_ <;> exact notMem_ofList (by decide)
  · refine exact_inlineEntry (isName_ids reviews (by decide)) ?_ ?_ <;> exact notMem_ofList (by decide)
  · refine exact_inlineEntry (isName_ids labels (by decide)) ?_ ?_ <;> exact notMem_ofList (by decide)
  · exact exact_searchEntry (isName_ids issues (by decide)) (notMem_ofList (by decide))
  · refine exact_inlineEntry (isName_ids assignees (by decide)) ?_ ?_ <;> exact notMem_ofList (by decide)
  · refine exact_inlineConnection ?_ ?_ (isName_ids labels (by decide)) ?_ rfl rfl <;> exact notMem_ofList (by decide)
  · refine Metadata.exact_of_runs ["login"] ?_ (fun _ => Iff.rfl) (by decide) ?_
    · decide +kernel
    · decide +kernel
  · refine exact_connectionEntry (isName_ids organizationMembers (by decide)) ?_ ?_ <;> exact notMem_ofList (by decide)
  · refine exact_connectionEntry (isName_ids teams (by decide)) ?_ ?_ <;> exact notMem_ofList (by decide)
  · refine exact_connectionEntry (isName_ids teamMembers (by decide)) ?_ ?_ <;> exact notMem_ofList (by decide)
  · refine exact_connection ?_ (isName_ids teamRepositories (by decide)) ?_ ?_ rfl rfl <;>
      exact notMem_ofList (by decide)
  · refine exact_connectionEntry (isName_ids repositories (by decide)) ?_ ?_ <;> exact notMem_ofList (by decide)
  · refine exact_connectionEntry (isName_ids collaborators (by decide)) ?_ ?_ <;> exact notMem_ofList (by decide)
  · refine exact_connection ?_ (isName_ids repositories (by decide)) ?_ ?_ rfl rfl <;> exact notMem_ofList (by decide)

/-! ## Links and declarations -/

/-- apart from the texts of fragments, the entries are the same for all page sizes -/
theorem entries_outline (limits : PageLimits) :
    (entries limits).map (fun e => (e.1, e.2.outline)) = (entries {}).map fun e => (e.1, e.2.outline) := by
  simp [entries, connectionEntry, inlineEntry, searchEntry, connection, inlineConnection, issueSearch, Metadata.outline,
    Fragment.acceptsChildren]

/-- what can be said without the texts is said of all page sizes at once -/
theorem forall_entries (limits : PageLimits) {P : ResourceId × Metadata → Prop}
    (h : ∀ e ∈ entries {}, P (e.1, e.2.outline)) : ∀ e ∈ entries limits, P (e.1, e.2.outline) := by
  intro e he
  have hmem := List.mem_map_of_mem (f := fun e : ResourceId × Metadata => (e.1, e.2.outline)) he
  rw [entries_outline] at hmem
  obtain ⟨e', he', heq⟩ := List.mem_map.1 hmem
  rw [← heq]
  exact h e' he'

theorem names_entries (limits : PageLimits) : (entries limits).map Prod.fst = (entries {}).map Prod.fst := by
  have h := congrArg (List.map Prod.fst) (entries_outline limits)
  rw [List.map_map, List.map_map] at h
  exact h

theorem nodup_entries (limits : PageLimits) : ((entries limits).map Prod.fst).Nodup := by
  rw [names_entries]
  decide

theorem entries_registry (limits : PageLimits) : (registry limits).entries.entries = entries limits :=
  Registry.entries_ofList limits (nodup_entries limits)

theorem ids_registry (limits : PageLimits) : (registry limits).ids = (entries {}).map Prod.fst := by
  rw [Registry.ids, OrderedMap.keys, entries_registry, names_entries]

/-- how many parents are above a resource -/
def parentRank (id : ResourceId) : Nat := if id ∈ [teamMembers, teamRepositories, collaborators] then 1 else 0

/-- how many levels of children are below a resource -/
def childRank (id : ResourceId) : Nat :=
  if id = organization then 2 else if id ∈ [pullRequest, pullRequests, issues, teams, repositories] then 1 else 0

theorem parents_entries (limits : PageLimits) :
    ∀ e ∈ entries limits, ∀ p ∈ e.2.parent, p ∈ (entries {}).map Prod.fst ∧ parentRank p < parentRank e.1 :=
  forall_entries limits (P := fun e =>
    ∀ p ∈ e.2.parent, p ∈ (entries {}).map Prod.fst ∧ parentRank p < parentRank e.1) (by decide)

theorem children_entries (limits : PageLimits) :
    ∀ e ∈ entries limits, ∀ c ∈ e.2.children,
      c ∈ (entries {}).map Prod.fst ∧ childRank c < childRank e.1 ∧ e.2.outline.fragment.acceptsChildren = true :=
  forall_entries limits (P := fun e => ∀ c ∈ e.2.children,
    c ∈ (entries {}).map Prod.fst ∧ childRank c < childRank e.1 ∧ e.2.fragment.acceptsChildren = true) (by decide)

theorem plainTypes_entries (limits : PageLimits) :
    ∀ e ∈ entries limits, ∀ v ∈ e.2.declarations, v.PlainType :=
  forall_entries limits (P := fun e => ∀ v ∈ e.2.declarations, v.PlainType) (by decide)

theorem agree_entries (limits : PageLimits) : Agree ((entries limits).flatMap fun e => e.2.declarations) := by
  have h := congrArg (List.flatMap fun e : ResourceId × Metadata => e.2.declarations) (entries_outline limits)
  rw [List.flatMap_map, List.flatMap_map] at h
  have hclosed : Agree ((entries {}).flatMap fun e => e.2.declarations) := by decide
  exact (congrArg Agree h).mpr hclosed

/-! ## The registry -/

theorem mem_entries_of_get? {limits : PageLimits} {id : ResourceId} {m : Metadata}
    (h : (registry limits).get? id = some m) : (id, m) ∈ entries limits := by
  rw [← entries_registry]
  exact OrderedMap.get?_eq_some_iff.1 h

theorem parentRank_lt {limits : PageLimits} {a b : ResourceId} (h : (registry limits).parent? a = some b) :
    parentRank b < parentRank a := by
  obtain ⟨m, hm, hparent⟩ := Option.bind_eq_some_iff.1 h
  exact (parents_entries limits (a, m) (mem_entries_of_get? hm) b hparent).2

theorem childRank_lt {limits : PageLimits} {a b : ResourceId} (h : b ∈ (registry limits).childrenOf a) :
    childRank b < childRank a := by
  unfold Registry.childrenOf at h
  cases hm : (registry limits).get? a with
  | none =>
    rw [hm] at h
    cases h
  | some m =>
    rw [hm] at h
    exact (children_entries limits (a, m) (mem_entries_of_get? hm) b h).2.1

theorem registry_selfConsistent (limits : PageLimits) : (registry limits).SelfConsistent := by
  intro e he
  rw [entries_registry] at he
  exact (exact_entries limits e he).1

theorem registry_valid (limits : PageLimits) : (registry limits).validate = .ok () := by
  refine Registry.validate_eq_ok_of_rank parentRank childRank ?_ (fun a b => parentRank_lt) fun a b => childRank_lt
  intro e he
  rw [entries_registry] at he
  rw [Registry.linkDefect?_eq_none_iff, ids_registry]
  refine ⟨?_, ?_, ?_⟩
  · exact fun p hp => (parents_entries limits e he p hp).1
  · exact fun c hc => (children_entries limits e he c hc).1
  · intro hne
    obtain ⟨c, hc⟩ := List.exists_mem_of_ne_nil _ hne
    rw [← Metadata.acceptsChildren_outline]
    exact (children_entries limits e he c hc).2.2

/-- below a registered root a lenient request has an answer -/
theorem compile_registry_ok (limits : PageLimits) {q : Request} (hroot : q.root ∈ (registry limits).ids)
    (hstrict : q.strict = false) : ∃ out, q.compile (registry limits) = .ok out := by
  refine Request.compile_lenient_ok ?_ ?_ hroot hstrict
  · intro id _
    exact Registry.not_revisits_of_rank parentRank (fun a b => parentRank_lt) id
  · intro a m b n hm hn
    refine (agree_entries limits).mono ?_
    intro v hv
    rcases List.mem_append.1 hv with hv | hv
    · exact List.mem_flatMap.2 ⟨(a, m), mem_entries_of_get? hm, hv⟩
    · exact List.mem_flatMap.2 ⟨(b, n), mem_entries_of_get? hn, hv⟩

end GitHub

/-! ## Main result -/

/-- **No undeclared and no unused variables.** If all entries of a registry are self-consistent and the root has a slot,
then a document, with types of one line and without dollar signs in its header, uses below its header exactly the names
that are declared there. It has no dollar sign without a name, unless some entry has one. The built-in registry is of
this kind for all page sizes; it is well-formed, and every lenient request below one of its resources has an answer. -/
theorem variables_used_iff_declared :
    (∀ (r : Registry) (q : Request) (root : Metadata) (out : CompiledQuery), r.SelfConsistent →
      r.get? q.root = some root → root.fragment.acceptsChildren = true → q.compile r = .ok out →
      (∀ v ∈ out.declarations, v.PlainType) →
        (∀ name, name ∈ usedNames (belowFirstLine out.document) ↔ name ∈ out.declarations.map Variable.name) ∧
        (∀ name, name ∈ usedNames (firstLine out.document) ↔ name ∈ out.declarations.map Variable.name) ∧
        ((∀ e ∈ r.entries.entries, DollarsNamed e.2.text) → DollarsNamed (belowFirstLine out.document))) ∧
    ∀ limits, (GitHub.registry limits).SelfConsistent ∧
      (∀ e ∈ (GitHub.registry limits).entries.entries,
        DollarsNamed e.2.text ∧ ∀ v ∈ e.2.declarations, v.PlainType) ∧
      (GitHub.registry limits).validate = .ok () ∧
      ∀ q : Request, q.root ∈ (GitHub.registry limits).ids → q.strict = false →
        ∃ out, q.compile (GitHub.registry limits) = .ok out := by
  constructor
  · intro r q root out hr hroot hslot h htypes
    obtain ⟨m, d, ha⟩ := Request.compile_eq_ok_iff.1 h
    obtain rfl : root = m := Option.some.inj (hroot.symm.trans ha.registered)
    refine ⟨?_, ?_, ha.dollarsNamed hr hslot htypes⟩
    · exact fun name => (ha.uses_iff_declares hr hslot htypes).2
    · exact fun name => (ha.uses_iff_declares hr hslot htypes).1
  · intro limits
    refine ⟨GitHub.registry_selfConsistent limits, ?_, GitHub.registry_valid limits, ?_⟩
    · intro e he
      rw [GitHub.entries_registry] at he
      exact ⟨(GitHub.exact_entries limits e he).2, GitHub.plainTypes_entries limits e he⟩
    · exact fun q => GitHub.compile_registry_ok limits

theorem org_variables_used :
    orgRegistry.SelfConsistent ∧ orgRequest.compile orgRegistry = .ok orgAnswer ∧
      (∀ v ∈ orgAnswer.declarations, v.PlainType) ∧
      (∀ name, name ∈ usedNames (belowFirstLine orgAnswer.document) ↔
        name ∈ orgAnswer.declarations.map Variable.name) ∧
      ∃ out, ({ root := GitHub.organization, ids := [GitHub.teamMembers] } : Request).compile
        (GitHub.registry { page := 10 }) = .ok out := by
  have hr : orgRegistry.SelfConsistent := by decide +kernel
  have htypes : ∀ v ∈ orgAnswer.declarations, v.PlainType := by decide +kernel
  have hroot : GitHub.organization ∈ (GitHub.registry { page := 10 }).ids := by
    rw [GitHub.ids_registry]
    decide
  refine ⟨hr, org_compiles, htypes, ?_, ?_⟩
  · exact (variables_used_iff_declared.1 orgRegistry orgRequest _ orgAnswer hr rfl rfl org_compiles htypes).1
  · exact (variables_used_iff_declared.2 { page := 10 }).2.2.2 _ hroot rfl

end ResourceQuery
