/-
Where a document puts its resources: at the top level, or below a selection.

Whether a requested child is left to its parent is read off the child's parent link; whether it is embedded, off the
children that the parent declares. Nothing ties the two kinds of links together, so a child can be in both places.

Results:
- `count_embedded`: a selection with a slot embeds a requested child as often as its resource declares it.
- `child_nested_as_declared`: and the child is a member of the top level too exactly if it is reached on its own or from
  the root.
- `topLevel_reached_iff`: a member of the top level that takes a third resource to reach is a parent selected on behalf
  of its child. So every member of the top level can be reached there exactly if all these parents can.
Counterexamples, in registries without a defect:
- `declared_child_selected_too`: a child with no parent link, embedded and selected; another child, embedded twice.
- `promoted_parent_out_of_reach`: a parent that is reached only through a third resource, selected under the root.
-/
import ResourceQuery.Registry.Validity
import ResourceQuery.Proofs.Coverage

namespace ResourceQuery

variable {r : Registry} {root : ResourceId} {wanted : List ResourceId} {q : Request} {d : Draft} {m : Metadata}

/-! ## Children -/

namespace Registry

theorem count_filterMap_get? {c : ResourceId} {n : Metadata} (hn : r.get? c = some n) (cs : List ResourceId) :
    (cs.filterMap fun x => (r.get? x).map (x, ·)).count (c, n) = cs.count c := by
  induction cs with
  | nil => rfl
  | cons x cs ih =>
    by_cases hx : x = c
    · subst hx
      simp [hn, ih]
    · cases hg : r.get? x with
      | none => simpa [hg, hx] using ih
      | some k => simpa [hg, hx] using ih

/-- a selection with a slot embeds a requested child as often as its resource declares it -/
theorem count_embedded {t c : ResourceId} {n : Metadata} (hm : m.fragment.acceptsChildren = true) (hw : c ∈ wanted)
    (hn : r.get? c = some n) : (r.selection wanted t m).embedded.count (c, n) = m.children.count c := by
  have hslots : m.slots = m.children := if_pos hm
  calc (r.selection wanted t m).embedded.count (c, n)
      = (m.slots.filter (· ∈ wanted)).count c := count_filterMap_get? hn _
    _ = m.slots.count c := List.count_filter (decide_eq_true hw)
    _ = m.children.count c := by rw [hslots]

/-- a requested and registered resource is at the top level only in its own right -/
theorem topLevel_iff_reachedFrom {c : ResourceId} (hw : c ∈ wanted) (hreg : c ∈ r.ids) :
    r.TopLevel root wanted c ↔ r.ReachedFrom root c := by
  constructor
  · rintro (ht | ht)
    · exact ht.2.2
    · exact absurd hw ht.2.1
  · intro hc
    exact .inl ⟨hw, hreg, hc⟩

end Registry

/-- **Declared children.** Let a selection of the top level have a slot, and let its resource declare the child `c`,
requested and registered. The selection embeds `c` with its own fragment as often as it is declared, so exactly once if
it is declared once. And `c` is no member of the top level itself, unless it is reached on its own or from the root. The
top level has each of its members once, and the root is none of them. -/
theorem child_nested_as_declared {out : CompiledQuery} (h : q.compile r = .ok out) :
    ∃ m d, q.Answers r m d out ∧ d.selected.Nodup ∧ q.root ∉ d.selected ∧
      ∀ s ∈ d.selections, r.get? s.id = some s.metadata ∧
        ∀ c n, c ∈ q.ids → c ≠ q.root → r.get? c = some n → s.metadata.fragment.acceptsChildren = true →
          c ∈ s.metadata.children →
            s.embedded.count (c, n) = s.metadata.children.count c ∧
            (c ∈ d.selected ↔ n.parent = none ∨ n.parent = some q.root) := by
  obtain ⟨m, d, ha⟩ := Request.compile_eq_ok_iff.1 h
  have hd := Request.draft_placed ha.drafted
  have hroot : q.root ∉ d.selected := by
    intro hs
    exact Registry.not_topLevel_root Request.root_notMem_wanted (hd.mem_selected_iff.1 hs)
  refine ⟨m, d, ha, hd.nodup_selected, hroot, ?_⟩
  intro s hs
  obtain ⟨t, k, ht, hk, rfl⟩ := hd.mem_selections_iff.1 hs
  refine ⟨hk, ?_⟩
  intro c n hq hne hn hacc hch
  have hw : c ∈ q.wanted := Request.mem_wanted_iff.2 ⟨hq, hne⟩
  refine ⟨Registry.count_embedded hacc hw hn, ?_⟩
  rw [hd.mem_selected_iff, Registry.topLevel_iff_reachedFrom hw (Registry.mem_ids_of_get? hn), Registry.ReachedFrom,
    Registry.parent?_of_get? hn]

theorem hub_issues_nested_once :
    hubRequest.compile hubRegistry = .ok hubAnswer ∧
      ∃ m d, hubRequest.Answers hubRegistry m d hubAnswer ∧ ∃ s ∈ d.selections, s.id = ⟨"repos"⟩ ∧
        s.embedded.count (⟨"issues"⟩, { fragment := .leaf "issues", parent := some ⟨"repos"⟩ }) = 1 ∧
        ⟨"issues"⟩ ∉ d.selected := by
  obtain ⟨m, d, ha, -, -, hchild⟩ := child_nested_as_declared hub_compiles
  have hrepos : hubRegistry.get? ⟨"repos"⟩ =
      some ⟨[], .nested "repos \x7b\n" "\x7d", some ⟨"teams"⟩, [⟨"issues"⟩, ⟨"labels"⟩], none, none⟩ := by decide
  have hissues : hubRegistry.get? ⟨"issues"⟩ = some { fragment := .leaf "issues", parent := some ⟨"repos"⟩ } := by
    decide
  have hs := (Request.draft_placed ha.drafted).mem_selections_iff.2 ⟨_, _, by decide, hrepos, rfl⟩
  obtain ⟨hcount, hsel⟩ := (hchild _ hs).2 ⟨"issues"⟩ _ (by decide) (by decide) hissues rfl (by decide)
  exact ⟨hub_compiles, m, d, ha, _, hs, rfl, hcount, fun hm => absurd (hsel.1 hm) (by decide)⟩

/-- **Two places for one child.** The board declares a card, which has no parent link, and declares its note twice. The
card is embedded in the board and selected as well; the note is embedded twice. -/
def boardRegistry : Registry := .ofList {} [
  (⟨"hub"⟩, { fragment := .nested "hub \x7b\n" "\x7d" }),
  (⟨"board"⟩, { fragment := .nested "board \x7b\n" "\x7d", children := [⟨"card"⟩, ⟨"note"⟩, ⟨"note"⟩] }),
  (⟨"card"⟩, { fragment := .leaf "card" }),
  (⟨"note"⟩, { fragment := .leaf "note", parent := some ⟨"board"⟩ })]

def boardRequest : Request := { root := ⟨"hub"⟩, ids := [⟨"board"⟩, ⟨"card"⟩, ⟨"note"⟩] }

def boardAnswer : CompiledQuery where
  document := "query \x7b\nhub \x7b\nboard \x7b\ncard\nnote\nnote\n\x7d\ncard\n\x7d\n...rateLimit\n\x7d"
  declarations := []
  resources := [⟨"hub"⟩, ⟨"board"⟩, ⟨"card"⟩, ⟨"note"⟩]
  skipped := []

theorem boardRegistry_valid : boardRegistry.validate = .ok () := by
  have hids : boardRegistry.ids = [⟨"hub"⟩, ⟨"board"⟩, ⟨"card"⟩, ⟨"note"⟩] := by decide
  have hhub : boardRegistry.childrenOf ⟨"hub"⟩ = [] := by decide
  have hboard : boardRegistry.childrenOf ⟨"board"⟩ = [⟨"card"⟩, ⟨"note"⟩, ⟨"note"⟩] := by decide
  have hcard : boardRegistry.childrenOf ⟨"card"⟩ = [] := by decide
  have hnote : boardRegistry.childrenOf ⟨"note"⟩ = [] := by decide
  refine Registry.validate_eq_ok_iff.2 ⟨by decide, by decide +kernel, ?_⟩
  simp [Registry.explore, hids, hhub, hboard, hcard, hnote]

theorem declared_child_selected_too :
    boardRegistry.validate = .ok () ∧ boardRequest.compile boardRegistry = .ok boardAnswer ∧
      ∃ m d, boardRequest.Answers boardRegistry m d boardAnswer ∧ ∃ s ∈ d.selections,
        s.id = ⟨"board"⟩ ∧ s.metadata.fragment.acceptsChildren = true ∧
        (⟨"card"⟩ ∈ s.metadata.children ∧ ⟨"card"⟩ ∈ d.selected) ∧
        (⟨"note"⟩ ∈ s.metadata.children ∧ s.embeddedIds.count ⟨"note"⟩ = 2) := by
  have hc : boardRequest.compile boardRegistry = .ok boardAnswer := by decide +kernel
  obtain ⟨m, d, ha⟩ := Request.compile_eq_ok_iff.1 hc
  have hd := Request.draft_placed ha.drafted
  have hboard : boardRegistry.get? ⟨"board"⟩ =
      some ⟨[], .nested "board \x7b\n" "\x7d", none, [⟨"card"⟩, ⟨"note"⟩, ⟨"note"⟩], none, none⟩ := by decide
  have hs := hd.mem_selections_iff.2 ⟨_, _, by decide, hboard, rfl⟩
  have hcard : ⟨"card"⟩ ∈ d.selected := hd.mem_selected_iff.2 (by decide)
  exact ⟨boardRegistry_valid, hc, m, d, ha, _, hs, rfl, rfl, ⟨by decide, hcard⟩, by decide, by decide⟩

/-! ## Members of the top level that are out of reach -/

/-- **Reach of the top level.** A member of the top level that takes a third resource to reach is a parent selected on
behalf of its child, and every such parent is a member. So the top level holds nothing out of reach exactly if each
parent that is selected on behalf of a child is reached on its own or from the root. -/
theorem topLevel_reached_iff {out : CompiledQuery} (h : q.compile r = .ok out) :
    ∃ m d, q.Answers r m d out ∧
      (∀ t, t ∈ d.selected ∧ ¬ r.ReachedFrom q.root t ↔
        r.Promoted q.root q.wanted t ∧ ¬ r.ReachedFrom q.root t) ∧
      ((∀ t ∈ d.selected, r.ReachedFrom q.root t) ↔
        ∀ p, r.Promoted q.root q.wanted p → r.ReachedFrom q.root p) := by
  obtain ⟨m, d, ha⟩ := Request.compile_eq_ok_iff.1 h
  have hd := Request.draft_placed ha.drafted
  have hpromoted : ∀ p, r.Promoted q.root q.wanted p → p ∈ d.selected := by
    intro p hp
    exact hd.mem_selected_iff.2 (.inr hp)
  -- a requested member is at the top level only because it is reached there
  have hrest : ∀ t ∈ d.selected, r.ReachedFrom q.root t ∨ r.Promoted q.root q.wanted t := by
    intro t ht
    rcases hd.mem_selected_iff.1 ht with hdirect | hprom
    · exact .inl hdirect.2.2
    · exact .inr hprom
  refine ⟨m, d, ha, fun t => ⟨?_, ?_⟩, ?_, ?_⟩
  · rintro ⟨ht, hno⟩
    exact ⟨(hrest t ht).resolve_left hno, hno⟩
  · rintro ⟨hp, hno⟩
    exact ⟨hpromoted t hp, hno⟩
  · intro hall p hp
    exact hall p (hpromoted p hp)
  · intro hall t ht
    rcases hrest t ht with hr | hp
    · exact hr
    · exact hall t hp

/-- the repositories, selected on behalf of the issues, are reached only through the teams -/
theorem hub_repos_out_of_reach :
    hubRequest.compile hubRegistry = .ok hubAnswer ∧
      ∃ m d, hubRequest.Answers hubRegistry m d hubAnswer ∧ ⟨"repos"⟩ ∈ d.selected ∧
        ¬ ∀ t ∈ d.selected, hubRegistry.ReachedFrom ⟨"hub"⟩ t := by
  obtain ⟨m, d, ha, hout, hall⟩ := topLevel_reached_iff hub_compiles
  have hrepos : hubRegistry.Promoted ⟨"hub"⟩ hubRequest.wanted ⟨"repos"⟩ := by decide
  have hno : ¬ hubRegistry.ReachedFrom ⟨"hub"⟩ ⟨"repos"⟩ := by decide
  exact ⟨hub_compiles, m, d, ha, ((hout _).2 ⟨hrepos, hno⟩).1, fun h => hno (hall.1 h _ hrepos)⟩

/-- **A parent out of reach.** Labels are reached through issues, and issues only through repositories. On behalf of the
labels alone, the issues are selected under the hub. -/
def chainRegistry : Registry := .ofList {} [
  (⟨"hub"⟩, { fragment := .nested "hub \x7b\n" "\x7d" }),
  (⟨"repos"⟩, { fragment := .nested "repos \x7b\n" "\x7d", children := [⟨"issues"⟩] }),
  (⟨"issues"⟩, { fragment := .nested "issues \x7b\n" "\x7d", parent := some ⟨"repos"⟩, children := [⟨"labels"⟩] }),
  (⟨"labels"⟩, { fragment := .leaf "labels", parent := some ⟨"issues"⟩ })]

def chainRequest : Request := { root := ⟨"hub"⟩, ids := [⟨"labels"⟩] }

def chainAnswer : CompiledQuery where
  document := "query \x7b\nhub \x7b\nissues \x7b\nlabels\n\x7d\n\x7d\n...rateLimit\n\x7d"
  declarations := []
  resources := [⟨"hub"⟩, ⟨"issues"⟩, ⟨"labels"⟩]
  skipped := []

theorem chainRegistry_valid : chainRegistry.validate = .ok () := by
  have hids : chainRegistry.ids = [⟨"hub"⟩, ⟨"repos"⟩, ⟨"issues"⟩, ⟨"labels"⟩] := by decide
  have hhub : chainRegistry.childrenOf ⟨"hub"⟩ = [] := by decide
  have hrepos : chainRegistry.childrenOf ⟨"repos"⟩ = [⟨"issues"⟩] := by decide
  have hissues : chainRegistry.childrenOf ⟨"issues"⟩ = [⟨"labels"⟩] := by decide
  have hlabels : chainRegistry.childrenOf ⟨"labels"⟩ = [] := by decide
  refine Registry.validate_eq_ok_iff.2 ⟨by decide, by decide +kernel, ?_⟩
  simp [Registry.explore, hids, hhub, hrepos, hissues, hlabels]

theorem promoted_parent_out_of_reach :
    chainRegistry.validate = .ok () ∧ chainRequest.compile chainRegistry = .ok chainAnswer ∧
      ∃ m d, chainRequest.Answers chainRegistry m d chainAnswer ∧ ⟨"issues"⟩ ∈ d.selected ∧
        chainRegistry.parent? ⟨"issues"⟩ = some ⟨"repos"⟩ ∧ ⟨"repos"⟩ ≠ chainRequest.root := by
  have hc : chainRequest.compile chainRegistry = .ok chainAnswer := by decide +kernel
  obtain ⟨m, d, ha⟩ := Request.compile_eq_ok_iff.1 hc
  have hissues : chainRegistry.TopLevel chainRequest.root chainRequest.wanted ⟨"issues"⟩ := by decide
  exact ⟨chainRegistry_valid, hc, m, d, ha, (Request.draft_placed ha.drafted).mem_selected_iff.2 hissues, by decide,
    by decide⟩

end ResourceQuery
