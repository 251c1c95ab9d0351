/-
When a request fails, and what it is told.

Requests are placed one after the other, and the first fault met is reported: of the two kinds of fault met on the way,
a cycle of parent links may come before a conflict of declarations, or after it. Whether there is a fault at all does
not depend on that order: it can be read off the links of the registry and the declarations of what is covered.

Results:
- `place_error_cases`, `draft_error_cases`: all faults that placing one request, and a whole draft, can meet.
- `draft_eq_ok_iff`: a draft comes about exactly if no parent links come back and all declarations met agree.
- `compile_error_cases`: all errors of a request.
- `compile_fails_iff`: a request fails exactly for one of four causes, and each error is genuine.
- `compile_lenient_ok`: in a registry with no cycles of parents whose declarations all agree, lenient requests below a
  registered root succeed.
-/
import ResourceQuery.Proofs.Declarations
import ResourceQuery.Proofs.Walks

namespace ResourceQuery

variable {r : Registry} {root : ResourceId} {wanted : List ResourceId} {q : Request} {d : Draft} {m : Metadata}
  {e : CompileError}

/-! ## Faults met by a draft -/

namespace Registry

theorem checkParents_eq_ok_iff {id : ResourceId} {u : Unit} :
    r.checkParents id = .ok u ↔ ∃ chain, r.parentChain id = .ok chain := by
  unfold checkParents
  rw [except_bind_eq_ok]
  constructor
  · rintro ⟨chain, hc, -⟩
    exact ⟨chain, mapError_eq_ok.1 hc⟩
  · rintro ⟨chain, hc⟩
    exact ⟨chain, mapError_eq_ok.2 hc, rfl⟩

theorem checkParents_eq_error_iff {id : ResourceId} :
    r.checkParents id = .error e ↔ ∃ chain, r.parentChain id = .error chain ∧ e = .cyclicParentChain chain := by
  unfold checkParents
  rw [except_bind_eq_error]
  constructor
  · rintro (h | ⟨chain, -, h⟩)
    · exact mapError_eq_error.1 h
    · cases h
  · intro h
    exact .inl (mapError_eq_error.2 h)

/-- All faults that placing one request can meet: its parent links come back, or the declarations of a new selection
conflict. -/
theorem place_error_cases {id : ResourceId} (h : r.place root wanted d id = .error e) :
    (∃ chain, e = .cyclicParentChain chain ∧ id ∈ r.ids ∧ r.parentChain id = .error chain) ∨
      ∃ c t m, e = .conflictingVariable c ∧ r.target? root wanted id = some t ∧ r.get? t = some m ∧
        t ∉ d.selected ∧ d.declared.merge (r.selection wanted t m).declarations = .error c := by
  unfold place at h
  cases hid : r.get? id with
  | none =>
    rw [hid] at h
    cases h
  | some n =>
    simp only [hid] at h
    rcases except_bind_eq_error.1 h with h | ⟨_, -, h⟩
    · obtain ⟨chain, hchain, rfl⟩ := checkParents_eq_error_iff.1 h
      exact .inl ⟨chain, rfl, mem_ids_of_get? hid, hchain⟩
    · cases hc : r.carrier? root wanted id n with
      | none =>
        rw [hc] at h
        cases h
      | some carrier =>
        obtain ⟨t, m⟩ := carrier
        obtain ⟨hres, hm⟩ := (carrier?_eq_some_iff hid).1 hc
        simp only [hc] at h
        split at h
        · cases h
        · rename_i hsel
          rcases except_bind_eq_error.1 h with h | ⟨declared, -, h⟩
          · obtain ⟨c, hmerge, rfl⟩ := mapError_eq_error.1 h
            exact .inr ⟨c, t, m, rfl, target?_eq_some_iff.2 hres, hm, hsel, hmerge⟩
          · cases h

/-- a request that resolves to something new carries it at the end -/
theorem carried_concat_of_new {done : List ResourceId} {id t : ResourceId} (hres : r.target? root wanted id = some t)
    (hm : r.get? t = some m) (hnew : t ∉ done.filterMap (r.target? root wanted)) :
    r.carried root wanted (done ++ [id]) = r.carried root wanted done ++ [(t, m)] := by
  unfold carried
  rw [filterMap_concat_some done hres, eraseDups_concat, if_neg hnew, List.filterMap_append]
  simp [hm]

end Registry

namespace Request

/-- the names whose parent links a request has to follow -/
def Followed (q : Request) (r : Registry) (id : ResourceId) : Prop := id = q.root ∨ (id ∈ q.ids ∧ id ∈ r.ids)

/-- a conflict met on the way is the one that all declarations, in the order of the document, come to -/
theorem merge_declarationsMet_of_conflict {before after : List ResourceId} {id t : ResourceId} {n : Metadata}
    {c : Conflict} (hsplit : q.wanted = before ++ id :: after) (hplaced : r.Placed q.root q.wanted before d)
    (hmerged : d.Merged m) (hres : r.target? q.root q.wanted id = some t) (hn : r.get? t = some n)
    (hnew : t ∉ d.selected) (hc : d.declared.merge (r.selection q.wanted t n).declarations = .error c) :
    ({} : VariableSet).merge (q.declarationsMet r m) = .error c := by
  have hnew' : t ∉ before.filterMap (r.target? q.root q.wanted) := by
    rwa [hplaced.selected, List.mem_eraseDups] at hnew
  -- the order of the top level goes on from the draft with the entry that conflicts
  obtain ⟨more, hmore⟩ : r.carried q.root q.wanted before ++ [(t, n)] <+: q.topLevel r := by
    rw [topLevel_eq_carried, ← Registry.carried_concat_of_new hres hn hnew']
    have happend := Registry.carried_append r q.root q.wanted (before ++ [id]) after
    rwa [List.append_assoc, List.singleton_append, ← hsplit] at happend
  have hmet : q.declarationsMet r m = d.met m ++ ((r.selection q.wanted t n).declarations ++
      (more.map fun e => r.selection q.wanted e.1 e.2).flatMap Selection.declarations) := by
    rw [declarationsMet_eq, ← hmore, Draft.met, hplaced.selections_eq]
    simp [List.append_assoc]
  rw [hmet, VariableSet.merge_append_of_ok hmerged]
  exact VariableSet.merge_append_of_error hc _

/-- All faults that a draft can meet. -/
theorem draft_error_cases (h : q.draft r m = .error e) :
    (∃ chain id, e = .cyclicParentChain chain ∧ q.Followed r id ∧ r.parentChain id = .error chain) ∨
      ∃ c, e = .conflictingVariable c ∧ ({} : VariableSet).merge (q.declarationsMet r m) = .error c := by
  rcases except_bind_eq_error.1 h with h | ⟨_, -, h⟩
  · obtain ⟨chain, hchain, rfl⟩ := Registry.checkParents_eq_error_iff.1 h
    exact .inl ⟨chain, q.root, rfl, .inl rfl, hchain⟩
  rcases except_bind_eq_error.1 h with h | ⟨declared, hdeclared, h⟩
  · obtain ⟨c, hc, rfl⟩ := mapError_eq_error.1 h
    exact .inr ⟨c, rfl, VariableSet.merge_append_of_error hc _⟩
  obtain ⟨before, id, after, d, hsplit, hbefore, hid⟩ := foldlM_eq_error h
  have hplaced : r.Placed q.root q.wanted before d := by
    simpa using Registry.foldlM_place_placed (Registry.placed_nil declared) hbefore
  have hmerged : d.Merged m :=
    Registry.foldlM_place_merged (Draft.merged_nil (mapError_eq_ok.1 hdeclared)) hbefore
  rcases Registry.place_error_cases hid with ⟨chain, rfl, hreg, hchain⟩ | ⟨c, t, n, rfl, hres, hn, hnew, hc⟩
  · have hwanted : id ∈ q.wanted := by
      rw [hsplit]
      simp
    exact .inl ⟨chain, id, rfl, .inr ⟨(mem_wanted_iff.1 hwanted).1, hreg⟩, hchain⟩
  · exact .inr ⟨c, rfl, merge_declarationsMet_of_conflict hsplit hplaced hmerged hres hn hnew hc⟩

end Request

/-- a run has followed the parent links of all registered names that it placed -/
theorem Registry.parentChain_of_foldlM_place {ids : List ResourceId} {d' : Draft}
    (h : ids.foldlM (r.place root wanted) d = .ok d') {id : ResourceId} (hid : id ∈ ids) (hreg : id ∈ r.ids) :
    ∃ chain, r.parentChain id = .ok chain := by
  induction ids generalizing d with
  | nil => cases hid
  | cons x xs ih =>
    obtain ⟨d₁, h₁, h⟩ := except_bind_eq_ok.1 h
    rcases List.mem_cons.1 hid with rfl | hid
    · exact (place_cases h₁).1 hreg
    · exact ih h hid

namespace Request

/-- parent links that the request has to follow come back -/
def Cyclic (q : Request) (r : Registry) : Prop := ∃ id, q.Followed r id ∧ r.Revisits id

/-- a parent that is selected on behalf of its child is passed on the way from the child -/
theorem not_revisits_of_covers (h : ¬ q.Cyclic r) {id : ResourceId} (hc : q.Covers r id) : ¬ r.Revisits id := by
  intro hback
  apply h
  rcases hc with rfl | (⟨hw, hreg, -⟩ | ⟨-, -, -, child, hw, hp⟩) | ⟨hw, hreg, -⟩
  · exact ⟨q.root, .inl rfl, hback⟩
  · exact ⟨id, .inr ⟨(mem_wanted_iff.1 hw).1, hreg⟩, hback⟩
  · exact ⟨child, .inr ⟨(mem_wanted_iff.1 hw).1, Registry.mem_ids_of_parent? hp⟩, hback.of_parent hp⟩
  · exact ⟨id, .inr ⟨(mem_wanted_iff.1 hw).1, hreg⟩, hback⟩

/-- two declarations of what the request covers give one name two types -/
def Conflicting (q : Request) (r : Registry) : Prop :=
  ∃ v w, q.Declares r v ∧ q.Declares r w ∧ v.name = w.name ∧ v.type ≠ w.type

theorem CoversSame.conflicting_iff {q' : Request} (h : q.CoversSame r q') : q.Conflicting r ↔ q'.Conflicting r := by
  simp only [Conflicting, h.declares_iff]

/-- requested, and covered nowhere -/
def LeftOut (q : Request) (r : Registry) (id : ResourceId) : Prop := id ∈ q.ids ∧ ¬ q.Covers r id

theorem agree_declarationsMet_iff (hroot : r.get? q.root = some m) :
    Agree (q.declarationsMet r m) ↔ ¬ q.Conflicting r := by
  simp only [Agree, mem_declarationsMet_iff hroot]
  constructor
  · rintro hagree ⟨v, w, hv, hw, hname, htype⟩
    exact htype (hagree v hv w hw hname)
  · intro hno v hv w hw hname
    by_contra htype
    exact hno ⟨v, w, hv, hw, hname, htype⟩

/-- A draft comes about exactly if no parent links come back and all declarations met agree. -/
theorem draft_eq_ok_iff (hroot : r.get? q.root = some m) :
    (∃ d, q.draft r m = .ok d) ↔ ¬ q.Cyclic r ∧ ¬ q.Conflicting r := by
  constructor
  · rintro ⟨d, hd⟩
    constructor
    · rintro ⟨id, hfollow, hback⟩
      obtain ⟨chain, herr⟩ := Registry.revisits_iff_parentChain_error.1 hback
      obtain ⟨u, hcheck, hrest⟩ := except_bind_eq_ok.1 hd
      obtain ⟨declared, -, hfold⟩ := except_bind_eq_ok.1 hrest
      have hok : ∃ chain, r.parentChain id = .ok chain := by
        by_cases hid : id = q.root
        · rw [hid]
          exact Registry.checkParents_eq_ok_iff.1 hcheck
        · obtain ⟨hids, hreg⟩ := hfollow.resolve_left hid
          exact Registry.parentChain_of_foldlM_place hfold (mem_wanted_iff.2 ⟨hids, hid⟩) hreg
      obtain ⟨ancestors, hok⟩ := hok
      rw [hok] at herr
      cases herr
    · rw [← agree_declarationsMet_iff hroot, ← draft_met hd]
      exact (VariableSet.merge_empty_eq_ok_iff.1 (draft_merged hd)).1
  · rintro ⟨hacyclic, hagree⟩
    cases hd : q.draft r m with
    | ok d => exact ⟨d, rfl⟩
    | error e =>
      rcases draft_error_cases hd with ⟨chain, id, -, hfollow, hchain⟩ | ⟨c, -, hc⟩
      · exact absurd ⟨id, hfollow, Registry.revisits_iff_parentChain_error.2 ⟨chain, hchain⟩⟩ hacyclic
      · have hno := (VariableSet.firstConflict_of_merge hc).not_agree
        exact absurd ((agree_declarationsMet_iff hroot).2 hagree) hno

/-! ## Errors of a request -/

/-- All errors of a request, with what is behind them. -/
theorem compile_error_cases (h : q.compile r = .error e) :
    (e = .unknownRoot q.root ∧ q.root ∉ r.ids) ∨
    (∃ chain id, e = .cyclicParentChain chain ∧ q.Followed r id ∧ r.parentChain id = .error chain) ∨
    (∃ c root, e = .conflictingVariable c ∧ r.get? q.root = some root ∧ FirstConflict (q.declarationsMet r root) c) ∨
    ∃ root d, e = .unresolved (q.skipped r d) ∧ r.get? q.root = some root ∧ q.draft r root = .ok d ∧
      q.strict = true ∧ q.skipped r d ≠ [] := by
  unfold compile at h
  split at h
  · rename_i hroot
    cases h
    exact .inl ⟨rfl, Registry.get?_eq_none_iff.1 hroot⟩
  · rename_i root hroot
    rcases except_bind_eq_error.1 h with h | ⟨d, hd, h⟩
    · rcases draft_error_cases h with ⟨chain, id, rfl, hfollow, hchain⟩ | ⟨c, rfl, hc⟩
      · exact .inr (.inl ⟨chain, id, rfl, hfollow, hchain⟩)
      · exact .inr (.inr (.inl ⟨c, root, rfl, hroot, VariableSet.firstConflict_of_merge hc⟩))
    · simp only at h
      split at h
      · rename_i hstrict
        cases h
        exact .inr (.inr (.inr ⟨root, d, rfl, hroot, hd, hstrict.1, hstrict.2⟩))
      · cases h

/-- the lenient request has an answer for every draft -/
theorem lenient_answers {root : Metadata} (hroot : r.get? q.root = some root) (hd : q.draft r root = .ok d) :
    ∃ out, (q.withStrict false).compile r = .ok out ∧ (q.withStrict false).Answers r root d out := by
  have ha : (q.withStrict false).Answers r root d
      ⟨d.document root, d.declared.toList, q.resources d, q.skipped r d⟩ :=
    ⟨hroot, hd, rfl, rfl, rfl, rfl, fun h => absurd h Bool.false_ne_true⟩
  exact ⟨_, compile_eq_ok_iff.2 ⟨root, d, ha⟩, ha⟩

theorem Answers.mem_skipped_iff_leftOut {out : CompiledQuery} (h : q.Answers r m d out) {id : ResourceId} :
    id ∈ out.skipped.map Skipped.id ↔ q.LeftOut r id := by
  rw [h.mem_skipped_iff, mem_wanted_iff, LeftOut, Covers, not_or, not_or, and_assoc]

theorem Answers.mem_skipped_iff_reason {out : CompiledQuery} (h : q.Answers r m d out) {s : Skipped} :
    s ∈ out.skipped ↔
      q.LeftOut r s.id ∧ s.reason = if r.get? s.id = none then .unregistered else .unreachable := by
  rw [← h.mem_skipped_iff_leftOut, h.skipped_eq]
  simp only [List.map_map, List.mem_map]
  constructor
  · rintro ⟨id, hid, rfl⟩
    exact ⟨⟨id, hid, rfl⟩, rfl⟩
  · rintro ⟨⟨id, hid, hs⟩, hreason⟩
    obtain rfl : id = s.id := hs
    exact ⟨s.id, hid, congrArg (Skipped.mk s.id) hreason.symm⟩

/-- an error has one of four causes -/
theorem causes_of_error (h : q.compile r = .error e) :
    q.root ∉ r.ids ∨ q.Cyclic r ∨ q.Conflicting r ∨ (q.strict = true ∧ ∃ id, q.LeftOut r id) := by
  rcases compile_error_cases h with ⟨-, hroot⟩ | ⟨chain, id, -, hfollow, hchain⟩ | ⟨c, root, -, hroot, hfirst⟩ |
    ⟨root, d, -, hroot, hd, hstrict, hne⟩
  · exact .inl hroot
  · exact .inr (.inl ⟨id, hfollow, Registry.revisits_iff_parentChain_error.2 ⟨chain, hchain⟩⟩)
  · refine .inr (.inr (.inl ?_))
    by_contra hno
    exact hfirst.not_agree ((agree_declarationsMet_iff hroot).2 hno)
  · obtain ⟨out, -, ha⟩ := lenient_answers hroot hd
    have hskipped : out.skipped = q.skipped r d := ha.skipped
    obtain ⟨s, hs⟩ := List.exists_mem_of_ne_nil _ hne
    refine .inr (.inr (.inr ⟨hstrict, s.id, ?_⟩))
    exact ha.mem_skipped_iff_leftOut.1 (List.mem_map_of_mem (hskipped ▸ hs))

/-- an answer rules out all four causes -/
theorem not_causes_of_ok {out : CompiledQuery} (h : q.compile r = .ok out) :
    q.root ∈ r.ids ∧ ¬ q.Cyclic r ∧ ¬ q.Conflicting r ∧ (q.strict = true → ¬ ∃ id, q.LeftOut r id) := by
  obtain ⟨root, d, ha⟩ := compile_eq_ok_iff.1 h
  obtain ⟨hacyclic, hagree⟩ := (draft_eq_ok_iff ha.registered).1 ⟨d, ha.drafted⟩
  refine ⟨Registry.mem_ids_of_get? ha.registered, hacyclic, hagree, ?_⟩
  rintro hstrict ⟨id, hleft⟩
  have hmem := ha.mem_skipped_iff_leftOut.2 hleft
  rw [ha.strict hstrict] at hmem
  cases hmem

/-- there is an answer exactly if none of the four causes holds -/
theorem exists_compile_ok_iff :
    (∃ out, q.compile r = .ok out) ↔
      q.root ∈ r.ids ∧ ¬ q.Cyclic r ∧ ¬ q.Conflicting r ∧ (q.strict = true → ¬ ∃ id, q.LeftOut r id) := by
  constructor
  · intro h
    obtain ⟨out, hout⟩ := h
    exact not_causes_of_ok hout
  · intro h
    obtain ⟨hroot, hacyclic, hagree, hstrict⟩ := h
    cases hc : q.compile r with
    | ok out => exact ⟨out, rfl⟩
    | error e =>
      rcases causes_of_error hc with hcause | hcause | hcause | ⟨hs, hleft⟩
      · exact absurd hroot hcause
      · exact absurd hcause hacyclic
      · exact absurd hcause hagree
      · exact absurd hleft (hstrict hs)

theorem compile_eq_unknownRoot_iff {id : ResourceId} :
    q.compile r = .error (.unknownRoot id) ↔ id = q.root ∧ q.root ∉ r.ids := by
  constructor
  · intro h
    rcases compile_error_cases h with ⟨he, hroot⟩ | ⟨_, _, he, -⟩ | ⟨_, _, he, -⟩ | ⟨_, _, he, -⟩ <;> cases he
    exact ⟨rfl, hroot⟩
  · rintro ⟨rfl, hroot⟩
    have hnone : r.get? q.root = none := Registry.get?_eq_none_iff.2 hroot
    unfold compile
    simp only [hnone]

/-- a refused chain is that of the root or of a requested and registered name -/
theorem followed_of_cyclicParentChain {chain : List ResourceId} (h : q.compile r = .error (.cyclicParentChain chain)) :
    ∃ id, q.Followed r id ∧ r.parentChain id = .error chain := by
  rcases compile_error_cases h with ⟨he, -⟩ | ⟨_, id, he, hfollow, hchain⟩ | ⟨_, _, he, -⟩ | ⟨_, _, he, -⟩ <;> cases he
  exact ⟨id, hfollow, hchain⟩

/-- a conflict is the first one in the declarations as the document meets them -/
theorem firstConflict_of_conflictingVariable {c : Conflict} (h : q.compile r = .error (.conflictingVariable c)) :
    ∃ root, r.get? q.root = some root ∧ FirstConflict (q.declarationsMet r root) c := by
  rcases compile_error_cases h with ⟨he, -⟩ | ⟨_, _, he, -⟩ | ⟨_, root, he, hroot, hfirst⟩ | ⟨_, _, he, -⟩ <;> cases he
  exact ⟨root, hroot, hfirst⟩

/-- what is refused as left out is what the lenient answer leaves out -/
theorem lenient_of_unresolved {skipped : List Skipped} (h : q.compile r = .error (.unresolved skipped)) :
    ∃ out, (q.withStrict false).compile r = .ok out ∧ out.skipped = skipped ∧ skipped ≠ [] := by
  rcases compile_error_cases h with ⟨he, -⟩ | ⟨_, _, he, -⟩ | ⟨_, _, he, -⟩ | ⟨root, d, he, hroot, hd, -, hne⟩ <;>
    cases he
  obtain ⟨out, hout, ha⟩ := lenient_answers hroot hd
  exact ⟨out, hout, ha.skipped, hne⟩

theorem lenient_of_compile {out : CompiledQuery} (h : q.compile r = .ok out) :
    (q.withStrict false).compile r = .ok out := by
  obtain ⟨root, d, ha⟩ := compile_eq_ok_iff.1 h
  exact compile_eq_ok_iff.2 ⟨root, d, ha.registered, ha.drafted, ha.document, ha.declarations, ha.resources,
    ha.skipped, fun hs => absurd hs Bool.false_ne_true⟩

/-- In a registry with no cycles of parents and no two types for one name, lenient requests below a registered root
succeed. -/
theorem compile_lenient_ok (hparents : ∀ id ∈ r.ids, ¬ r.Revisits id)
    (hagree : ∀ a m b n, r.get? a = some m → r.get? b = some n → Agree (m.declarations ++ n.declarations))
    (hroot : q.root ∈ r.ids) (hstrict : q.strict = false) : ∃ out, q.compile r = .ok out := by
  cases hc : q.compile r with
  | ok out => exact ⟨out, rfl⟩
  | error e =>
    exfalso
    rcases causes_of_error hc with h | ⟨id, hfollow, hback⟩ | ⟨v, w, hv, hw, hname, htype⟩ | ⟨h, -⟩
    · exact h hroot
    · rcases hfollow with rfl | ⟨-, hreg⟩
      · exact hparents _ hroot hback
      · exact hparents id hreg hback
    · obtain ⟨a, m, -, hm, hvm⟩ := hv
      obtain ⟨b, n, -, hn, hwn⟩ := hw
      exact htype (hagree a m b n hm hn v (List.mem_append_left _ hvm) w (List.mem_append_right _ hwn) hname)
    · rw [hstrict] at h
      cases h

end Request

/-! ## Main result -/

/-- **Failure of a request.** A request fails exactly if its root is unknown, if parent links that it has to follow come
back, if two declarations of what it covers give one name two types, or if it is strict and something is left out. The
root is reported exactly if it is unknown. A reported chain is the walk from the root, or from a requested and
registered name, that closes. A reported conflict is the first among the declarations as the document meets them, and
what the request covers declares both types. What is reported as left out is what the lenient answer leaves out, and
comes last of the four causes; and an answer to a strict request is the lenient one. -/
theorem compile_fails_iff (q : Request) (r : Registry) :
    ((∃ e, q.compile r = .error e) ↔
      q.root ∉ r.ids ∨ q.Cyclic r ∨ q.Conflicting r ∨ (q.strict = true ∧ ∃ id, q.LeftOut r id)) ∧
    (∀ id, q.compile r = .error (.unknownRoot id) ↔ id = q.root ∧ q.root ∉ r.ids) ∧
    (∀ chain, q.compile r = .error (.cyclicParentChain chain) →
      ∃ id, q.Followed r id ∧ r.parentChain id = .error chain ∧ r.ClosedWalk id chain) ∧
    (∀ c, q.compile r = .error (.conflictingVariable c) →
      q.Declares r ⟨c.name, c.first⟩ ∧ q.Declares r ⟨c.name, c.second⟩ ∧ c.first ≠ c.second ∧
        ∃ root, r.get? q.root = some root ∧ FirstConflict (q.declarationsMet r root) c) ∧
    (∀ skipped, q.compile r = .error (.unresolved skipped) →
      (q.root ∈ r.ids ∧ ¬ q.Cyclic r ∧ ¬ q.Conflicting r) ∧
        ∃ out, (q.withStrict false).compile r = .ok out ∧ out.skipped = skipped) ∧
    (∀ out, q.compile r = .ok out → (q.withStrict false).compile r = .ok out) := by
  refine ⟨⟨?_, ?_⟩, fun id => Request.compile_eq_unknownRoot_iff, ?_, ?_, ?_, fun out => Request.lenient_of_compile⟩
  · rintro ⟨e, he⟩
    exact Request.causes_of_error he
  · intro hcause
    cases hc : q.compile r with
    | error e => exact ⟨e, rfl⟩
    | ok out =>
      obtain ⟨hroot, hacyclic, hagree, hstrict⟩ := Request.not_causes_of_ok hc
      rcases hcause with h | h | h | ⟨hs, hleft⟩
      · exact absurd hroot h
      · exact absurd h hacyclic
      · exact absurd h hagree
      · exact absurd hleft (hstrict hs)
  · intro chain h
    obtain ⟨id, hfollow, hchain⟩ := Request.followed_of_cyclicParentChain h
    exact ⟨id, hfollow, hchain, Registry.closedWalk_of_parentChain hchain⟩
  · intro c h
    obtain ⟨root, hroot, hfirst⟩ := Request.firstConflict_of_conflictingVariable h
    have hdeclares : ∀ v ∈ q.declarationsMet r root, q.Declares r v :=
      fun v => (Request.mem_declarationsMet_iff hroot).1
    exact ⟨hdeclares _ hfirst.first_mem, hdeclares _ hfirst.second_mem, hfirst.ne, root, hroot, hfirst⟩
  · intro skipped h
    obtain ⟨out, hout, hskipped, -⟩ := Request.lenient_of_unresolved h
    obtain ⟨hroot, hacyclic, hagree, -⟩ := Request.not_causes_of_ok hout
    exact ⟨⟨hroot, hacyclic, hagree⟩, out, hout, hskipped⟩

/-- two resources that are each other's parent, and two that give one variable two types -/
def faultyRegistry : Registry := .ofList {} [
  (⟨"hub"⟩, { fragment := .nested "hub \x7b\n" "\x7d" }),
  (⟨"inner"⟩, { fragment := .leaf "inner", parent := some ⟨"outer"⟩ }),
  (⟨"outer"⟩, { fragment := .nested "outer \x7b\n" "\x7d", parent := some ⟨"inner"⟩, children := [⟨"inner"⟩] }),
  (⟨"node"⟩, { declarations := [⟨"id", "ID!"⟩], fragment := .leaf "node(id: $id)" }),
  (⟨"user"⟩, { declarations := [⟨"id", "String"⟩], fragment := .leaf "user(id: $id)" })]

/-- below the hub -/
def faultyRequest (ids : List ResourceId) : Request := { root := ⟨"hub"⟩, ids, strict := true }

/-- each kind of failure occurs -/
theorem faulty_requests_fail :
    (∃ e, ({ root := ⟨"nowhere"⟩ } : Request).compile faultyRegistry = .error e) ∧
    (∃ id, (faultyRequest [⟨"inner"⟩]).Followed faultyRegistry id ∧
      faultyRegistry.parentChain id = .error [⟨"inner"⟩, ⟨"outer"⟩, ⟨"inner"⟩]) ∧
    ((faultyRequest [⟨"node"⟩, ⟨"user"⟩]).Declares faultyRegistry ⟨"id", "ID!"⟩ ∧
      (faultyRequest [⟨"node"⟩, ⟨"user"⟩]).Declares faultyRegistry ⟨"id", "String"⟩) ∧
    ∃ out, ((faultyRequest [⟨"node"⟩, ⟨"team"⟩]).withStrict false).compile faultyRegistry = .ok out ∧
      out.skipped = [⟨⟨"team"⟩, .unregistered⟩] := by
  have hcyclic : (faultyRequest [⟨"inner"⟩]).compile faultyRegistry =
      .error (.cyclicParentChain [⟨"inner"⟩, ⟨"outer"⟩, ⟨"inner"⟩]) := by decide +kernel
  have hconflict : (faultyRequest [⟨"node"⟩, ⟨"user"⟩]).compile faultyRegistry =
      .error (.conflictingVariable ⟨"id", "ID!", "String"⟩) := by decide +kernel
  have hleft : (faultyRequest [⟨"node"⟩, ⟨"team"⟩]).compile faultyRegistry =
      .error (.unresolved [⟨⟨"team"⟩, .unregistered⟩]) := by decide +kernel
  refine ⟨?_, ?_, ?_, ?_⟩
  · exact (compile_fails_iff _ _).1.2 (.inl (by decide))
  · obtain ⟨-, -, hchain, -⟩ := compile_fails_iff (faultyRequest [⟨"inner"⟩]) faultyRegistry
    obtain ⟨id, hfollow, hid, -⟩ := hchain _ hcyclic
    exact ⟨id, hfollow, hid⟩
  · obtain ⟨-, -, -, htypes, -⟩ := compile_fails_iff (faultyRequest [⟨"node"⟩, ⟨"user"⟩]) faultyRegistry
    obtain ⟨hfirst, hsecond, -⟩ := htypes _ hconflict
    exact ⟨hfirst, hsecond⟩
  · obtain ⟨-, -, -, -, hskipped, -⟩ := compile_fails_iff (faultyRequest [⟨"node"⟩, ⟨"team"⟩]) faultyRegistry
    exact (hskipped _ hleft).2

end ResourceQuery
