/-
What validation finds.

A registry is well-formed if its links name registered resources, only fragments with a slot have children, and no walk
along parent links or along child links returns to its start. For child links this is found out by one depth-first
search, which shares what it has explored among all its starts: a name is put behind all its children there, so links
between explored names only go back, and no walk along them returns.

Results:
- `settled_of_explore`: what a search has explored is in such an order, and has all names that were to be explored.
- `forall_parentCycle?_iff`, `exists_explore_iff`: the two searches pass exactly if no walk returns.
- `genuine_of_linkDefect?`: a wrong link is that of the first entry with one, and the first one there.
- `validate_exact`: validation passes exactly the well-formed registries, and reports a genuine defect of all others.
-/
import ResourceQuery.Proofs.Walks

namespace ResourceQuery

namespace Registry

variable {r : Registry} {id : ResourceId} {m : Metadata} {done : List ResourceId}

/-! ## Loops -/

/-- a walk along parent links returns to `id` -/
def ParentLoop (r : Registry) (id : ResourceId) : Prop := ∃ path, r.ParentWalk (id :: path ++ [id])

/-- a walk along child links returns to `id` -/
def ChildLoop (r : Registry) (id : ResourceId) : Prop := ∃ path, r.ChildWalk (id :: path ++ [id])

/-- the last name of a closed walk is on a loop, from where it was passed first -/
theorem ClosedWalk.parentLoop {path : List ResourceId} (h : r.ClosedWalk id path) : ∃ a, r.ParentLoop a := by
  obtain ⟨passed, again, rfl, -, hmem⟩ := h.closed
  obtain ⟨before, loop, rfl⟩ := List.append_of_mem hmem
  refine ⟨again, loop, ?_⟩
  apply List.IsChain.suffix h.walk
  rw [List.append_assoc]
  exact List.suffix_append _ _

/-- a loop of parents starts at a registered name and comes back to it -/
theorem ParentLoop.revisits (h : r.ParentLoop id) : id ∈ r.ids ∧ r.Revisits id := by
  obtain ⟨path, hwalk⟩ := h
  constructor
  · obtain ⟨hfirst, -⟩ := List.isChain_cons.1 hwalk
    obtain ⟨next, hnext⟩ : ∃ next, next ∈ (path ++ [id]).head? := by cases path <;> simp
    exact mem_ids_of_parent? (hfirst next hnext)
  · refine ⟨id :: path ++ [id], rfl, hwalk, ?_⟩
    simp

theorem parentCycle?_eq_none_iff : r.parentCycle? id = none ↔ ¬ r.Revisits id := by
  rw [revisits_iff_parentChain_error, parentCycle?]
  cases r.parentChain id with
  | ok chain => simp
  | error chain => simp

/-- no parent chain is refused exactly if no walk along parent links returns to its start -/
theorem forall_parentCycle?_iff : (∀ id ∈ r.ids, r.parentCycle? id = none) ↔ ∀ id, ¬ r.ParentLoop id := by
  simp only [parentCycle?_eq_none_iff]
  constructor
  · intro h id hloop
    obtain ⟨hid, hback⟩ := hloop.revisits
    exact h id hid hback
  · intro h id _ hback
    obtain ⟨path, herror⟩ := revisits_iff_parentChain_error.1 hback
    obtain ⟨a, hloop⟩ := (closedWalk_of_parentChain herror).parentLoop
    exact h a hloop

/-! ## The search through child links -/

/-- names in an order in which each comes after all its children -/
inductive Settled (r : Registry) : List ResourceId → Prop
  | nil : Settled r []
  | concat {done : List ResourceId} {id : ResourceId} (settled : Settled r done)
      (children : ∀ c ∈ r.childrenOf id, c ∈ done) : Settled r (done ++ [id])

/-- links between settled names go back -/
theorem Settled.idxOf_lt (h : r.Settled done) {a b : ResourceId} (ha : a ∈ done) (hb : b ∈ r.childrenOf a) :
    done.idxOf b < done.idxOf a := by
  induction h with
  | nil => cases ha
  | @concat done id _ hchildren ih =>
    by_cases hmem : a ∈ done
    · have hlt := ih hmem
      have hbmem : b ∈ done := List.idxOf_lt_length_iff.1 (Nat.lt_trans hlt (List.idxOf_lt_length_of_mem hmem))
      rw [List.idxOf_append_of_mem hmem, List.idxOf_append_of_mem hbmem]
      exact hlt
    · have hid : a = id := by
        rcases List.mem_append.1 ha with h | h
        · exact absurd h hmem
        · exact List.mem_singleton.1 h
      have hbmem : b ∈ done := hchildren b (hid ▸ hb)
      rw [List.idxOf_append_of_mem hbmem, List.idxOf_append_of_notMem hmem]
      exact Nat.lt_of_lt_of_le (List.idxOf_lt_length_of_mem hbmem) (Nat.le_add_right _ _)

/-- A search that meets no cycle leaves what it has explored settled: it keeps what it was given, and adds each name
after its children. -/
theorem settled_of_explore {path ids done' : List ResourceId} (hd : r.Settled done)
    (h : r.explore path done ids = .ok done') : r.Settled done' ∧ done ⊆ done' ∧ ids ⊆ done' := by
  induction path, done, ids using explore.induct r generalizing done' with
  | case1 path done =>
    rw [explore] at h
    cases h
    exact ⟨hd, List.Subset.refl _, List.nil_subset _⟩
  | case2 path done id rest hdone ih =>
    rw [explore, if_pos hdone] at h
    obtain ⟨hsettled, hkeep, hrest⟩ := ih hd h
    exact ⟨hsettled, hkeep, List.cons_subset.2 ⟨hkeep hdone, hrest⟩⟩
  | case3 path done id rest hdone hpath =>
    rw [explore, if_neg hdone, if_pos hpath] at h
    cases h
  | case4 path done id rest hdone hpath cycle hcycle ih =>
    rw [explore, if_neg hdone, if_neg hpath, hcycle] at h
    cases h
  | case5 path done id rest hdone hpath below hbelow ihchildren ihrest =>
    rw [explore, if_neg hdone, if_neg hpath, hbelow] at h
    obtain ⟨hsettled, hkeep, hchildren⟩ := ihchildren hd hbelow
    obtain ⟨hsettled', hkeep', hrest⟩ := ihrest (hsettled.concat fun c hc => hchildren hc) h
    refine ⟨hsettled', ?_, List.cons_subset.2 ⟨?_, hrest⟩⟩
    · exact fun x hx => hkeep' (List.mem_append_left _ (hkeep hx))
    · exact hkeep' (List.mem_append_right _ (List.mem_singleton_self id))

/-- the search meets no cycle exactly if no walk along child links returns to its start -/
theorem exists_explore_iff : (∃ done, r.explore [] [] r.ids = .ok done) ↔ ∀ id, ¬ r.ChildLoop id := by
  constructor
  · intro h id hloop
    obtain ⟨done, hdone⟩ := h
    obtain ⟨path, hwalk⟩ := hloop
    obtain ⟨hsettled, -, hall⟩ := settled_of_explore Settled.nil hdone
    have hdown : ∀ a b, b ∈ r.childrenOf a → done.idxOf b < done.idxOf a := by
      intro a b hb
      by_cases ha : a ∈ r.ids
      · exact hsettled.idxOf_lt (hall ha) hb
      · rw [childrenOf_eq_nil ha] at hb
        cases hb
    have hnodup := nodup_of_rank (fun a => done.idxOf a) hdown hwalk
    simp at hnodup
  · intro h
    cases hexplore : r.explore [] [] r.ids with
    | ok done => exact ⟨done, rfl⟩
    | error cycle =>
      obtain ⟨hwalk, id, rest, rfl, -⟩ :=
        childCycle_of_explore List.nodup_nil (fun id _ => List.isChain_singleton id) hexplore
      exact absurd ⟨rest, hwalk⟩ (h id)

/-! ## Links -/

/-- an entry's links name registered resources, and it has a slot for its children -/
structure LinksRight (r : Registry) (m : Metadata) : Prop where
  parent : ∀ p ∈ m.parent, p ∈ r.ids
  children : ∀ c ∈ m.children, c ∈ r.ids
  slot : m.children ≠ [] → m.fragment.acceptsChildren = true

theorem linkDefect?_eq_none_iff_linksRight : r.linkDefect? id m = none ↔ r.LinksRight m := by
  rw [linkDefect?_eq_none_iff]
  exact ⟨fun h => ⟨h.1, h.2.1, h.2.2⟩, fun h => ⟨h.parent, h.children, h.slot⟩⟩

/-- the first entry in registration order whose links are not right -/
def FirstWrong (r : Registry) (id : ResourceId) (m : Metadata) : Prop :=
  ¬ r.LinksRight m ∧
    ∃ before after, r.entries.entries = before ++ (id, m) :: after ∧ ∀ e ∈ before, r.LinksRight e.2

end Registry

/-- What a defect says of a registry is so: a wrong link is the first of the first wrong entry; a cycle of parents is
the closed walk from a registered name, where the links are right; and a cycle of children is a closed walk, where
besides no walk along parent links returns. -/
def Defect.Genuine (r : Registry) : Defect → Prop
  | unknownParent id parent => ∃ m, r.FirstWrong id m ∧ m.parent = some parent ∧ parent ∉ r.ids
  | unknownChild id child =>
    ∃ m, r.FirstWrong id m ∧ (∀ p ∈ m.parent, p ∈ r.ids) ∧
      ∃ before after, m.children = before ++ child :: after ∧ (∀ c ∈ before, c ∈ r.ids) ∧ child ∉ r.ids
  | leafWithChildren id =>
    ∃ m, r.FirstWrong id m ∧ (∀ p ∈ m.parent, p ∈ r.ids) ∧ (∀ c ∈ m.children, c ∈ r.ids) ∧ m.children ≠ [] ∧
      m.fragment.acceptsChildren = false
  | parentCycle chain => (∀ e ∈ r.entries.entries, r.LinksRight e.2) ∧ ∃ id ∈ r.ids, r.ClosedWalk id chain
  | childCycle cycle =>
    (∀ e ∈ r.entries.entries, r.LinksRight e.2) ∧ (∀ id, ¬ r.ParentLoop id) ∧ r.ChildCycle cycle

namespace Registry

variable {r : Registry} {id : ResourceId} {m : Metadata} {defect : Defect}

theorem genuine_of_linkDefect? (h : r.linkDefect? id m = some defect) (hfirst : r.FirstWrong id m) :
    defect.Genuine r := by
  unfold linkDefect? at h
  split at h
  · rename_i parent _ hparent
    cases h
    obtain ⟨hsome, hno⟩ := Option.filter_eq_some_iff.1 hparent
    refine ⟨m, hfirst, hsome, ?_⟩
    rw [← contains_iff]
    simpa using hno
  · rename_i child hparent hchild
    cases h
    obtain ⟨hno, before, after, hsplit, hbefore⟩ := List.find?_eq_some_iff_append.1 hchild
    refine ⟨m, hfirst, ?_, before, after, hsplit, ?_, ?_⟩
    · simpa [Option.filter_eq_none_iff, contains_iff] using hparent
    · intro c hc
      rw [← contains_iff]
      simpa using hbefore c hc
    · rw [← contains_iff]
      simpa using hno
  · rename_i hparent hchild
    split at h
    · rename_i hleaf
      cases h
      refine ⟨m, hfirst, ?_, ?_, hleaf.1, hleaf.2⟩
      · simpa [Option.filter_eq_none_iff, contains_iff] using hparent
      · simpa [contains_iff] using hchild
    · cases h

/-- the first wrong link that a pass through the entries finds -/
theorem genuine_of_findSome? (h : (r.entries.entries.findSome? fun e => r.linkDefect? e.1 e.2) = some defect) :
    defect.Genuine r := by
  obtain ⟨before, e, after, hsplit, he, hbefore⟩ := List.findSome?_eq_some_iff.1 h
  have hwrong : ¬ r.LinksRight e.2 := by
    intro hright
    rw [(linkDefect?_eq_none_iff_linksRight : r.linkDefect? e.1 e.2 = none ↔ _).2 hright] at he
    cases he
  refine genuine_of_linkDefect? he ⟨hwrong, before, after, hsplit, ?_⟩
  intro e' he'
  exact linkDefect?_eq_none_iff_linksRight.1 (hbefore e' he')

/-- a reported defect is genuine -/
theorem genuine_of_validate (h : r.validate = .error defect) : defect.Genuine r := by
  have hsome : r.defect? = some defect := by
    unfold validate at h
    cases hd : r.defect? with
    | none => simp [hd] at h
    | some d => simpa [hd] using h
  have hright : (r.entries.entries.findSome? fun e => r.linkDefect? e.1 e.2) = none →
      ∀ e ∈ r.entries.entries, r.LinksRight e.2 := by
    intro hnone e he
    exact linkDefect?_eq_none_iff_linksRight.1 (List.findSome?_eq_none_iff.1 hnone e he)
  rw [defect?, Option.or_eq_some_iff, Option.or_eq_some_iff] at hsome
  rcases hsome with (hlink | ⟨hlinks, hparent⟩) | ⟨hnone, hchild⟩
  · exact genuine_of_findSome? hlink
  · obtain ⟨_, id, _, hsplit, hid, -⟩ := List.findSome?_eq_some_iff.1 hparent
    unfold parentCycle? at hid
    cases hchain : r.parentChain id with
    | ok chain => simp [hchain] at hid
    | error chain =>
      simp only [hchain, Option.some.injEq] at hid
      subst hid
      refine ⟨hright hlinks, id, ?_, closedWalk_of_parentChain hchain⟩
      rw [hsplit]
      simp
  · obtain ⟨hlinks, hparents⟩ := Option.or_eq_none_iff.1 hnone
    unfold childCycle? at hchild
    cases hexplore : r.explore [] [] r.ids with
    | ok done => simp [hexplore] at hchild
    | error cycle =>
      simp only [hexplore, Option.some.injEq] at hchild
      subst hchild
      refine ⟨hright hlinks, ?_, ?_⟩
      · exact forall_parentCycle?_iff.1 (List.findSome?_eq_none_iff.1 hparents)
      · exact childCycle_of_explore List.nodup_nil (fun id _ => List.isChain_singleton id) hexplore

end Registry

/-! ## Main result -/

/-- **Validation is exact.** A registry passes exactly if all its links name registered resources, only entries with a
slot have children, no walk along parent links returns to its start, and none along child links does. What is reported
otherwise is genuine. -/
theorem validate_exact (r : Registry) :
    (r.validate = .ok () ↔
      (∀ e ∈ r.entries.entries, r.LinksRight e.2) ∧ (∀ id, ¬ r.ParentLoop id) ∧ ∀ id, ¬ r.ChildLoop id) ∧
    ∀ defect, r.validate = .error defect → defect.Genuine r := by
  refine ⟨?_, fun defect => Registry.genuine_of_validate⟩
  rw [Registry.validate_eq_ok_iff, Registry.forall_parentCycle?_iff, Registry.exists_explore_iff]
  simp only [Registry.linkDefect?_eq_none_iff_linksRight]

/-- two sides that share what is below them; `last` are the children declared at the bottom -/
def diamondRegistry (last : List ResourceId) : Registry := .ofList {} [
  (⟨"top"⟩, { fragment := .nested "top \x7b\n" "\x7d", children := [⟨"left"⟩, ⟨"right"⟩, ⟨"left"⟩] }),
  (⟨"left"⟩, { fragment := .nested "left \x7b\n" "\x7d", parent := some ⟨"top"⟩, children := [⟨"bottom"⟩] }),
  (⟨"right"⟩, { fragment := .nested "right \x7b\n" "\x7d", parent := some ⟨"top"⟩, children := [⟨"bottom"⟩] }),
  (⟨"bottom"⟩, { fragment := .nested "bottom \x7b\n" "\x7d", children := last })]

/-- A diamond is no cycle, and neither is a child that is declared twice. A link from the bottom to one of the sides
makes a cycle of that side and the bottom, and a link to nothing is reported before any cycle. -/
theorem diamond_validated :
    (∀ id, ¬ (diamondRegistry []).ChildLoop id) ∧
    (diamondRegistry [⟨"right"⟩]).ChildCycle [⟨"bottom"⟩, ⟨"right"⟩, ⟨"bottom"⟩] ∧
    (Defect.unknownChild ⟨"bottom"⟩ ⟨"ghost"⟩).Genuine (diamondRegistry [⟨"top"⟩, ⟨"ghost"⟩]) := by
  have hids : ∀ last, (diamondRegistry last).ids = [⟨"top"⟩, ⟨"left"⟩, ⟨"right"⟩, ⟨"bottom"⟩] := fun _ => rfl
  have htop : ∀ last, (diamondRegistry last).childrenOf ⟨"top"⟩ = [⟨"left"⟩, ⟨"right"⟩, ⟨"left"⟩] := fun _ => rfl
  have hleft : ∀ last, (diamondRegistry last).childrenOf ⟨"left"⟩ = [⟨"bottom"⟩] := fun _ => rfl
  have hright : ∀ last, (diamondRegistry last).childrenOf ⟨"right"⟩ = [⟨"bottom"⟩] := fun _ => rfl
  have hbottom : ∀ last, (diamondRegistry last).childrenOf ⟨"bottom"⟩ = last := fun _ => rfl
  have hvalid : (diamondRegistry []).validate = .ok () := by
    refine Registry.validate_eq_ok_iff.2 ⟨by decide, by decide +kernel, ?_⟩
    simp [Registry.explore, hids, htop, hleft, hright, hbottom]
  have hcycle : (diamondRegistry [⟨"right"⟩]).validate =
      .error (.childCycle [⟨"bottom"⟩, ⟨"right"⟩, ⟨"bottom"⟩]) := by
    have hexplore : (diamondRegistry [⟨"right"⟩]).explore [] [] (diamondRegistry [⟨"right"⟩]).ids =
        .error [⟨"bottom"⟩, ⟨"right"⟩, ⟨"bottom"⟩] := by
      simp [Registry.explore, hids, htop, hleft, hright, hbottom]
    have hlinks : ((diamondRegistry [⟨"right"⟩]).entries.entries.findSome? fun e =>
        (diamondRegistry [⟨"right"⟩]).linkDefect? e.1 e.2) = none := by decide
    have hparents : (diamondRegistry [⟨"right"⟩]).ids.findSome? (diamondRegistry [⟨"right"⟩]).parentCycle? = none := by
      decide +kernel
    rw [Registry.validate, Registry.defect?, hlinks, hparents, Registry.childCycle?, hexplore]
    rfl
  have hghost : (diamondRegistry [⟨"top"⟩, ⟨"ghost"⟩]).validate =
      .error (.unknownChild ⟨"bottom"⟩ ⟨"ghost"⟩) := by decide +kernel
  refine ⟨((validate_exact _).1.1 hvalid).2.2, ?_, (validate_exact _).2 _ hghost⟩
  exact ((validate_exact _).2 _ hcycle).2.2

end ResourceQuery
