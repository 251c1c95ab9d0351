/-
How the requested resources are placed.

A requested resource resolves to at most one resource of the top level: to itself, if it is reached on its own or from
the root, and else to its parent, if that is registered and not requested. Placing the requested resources one after the
other selects what they resolve to, each once, in the order of the first request for it.

Results:
- `place_cases`: all that placing one resource can do.
- `draft_placed`: a finished draft has exactly the top level that the requests resolve to.
- `compile_eq_ok_iff`: every part of an answer is read off the draft behind it.
- `compile_strict`: a strict request fails with what the lenient one leaves out.
-/
import ResourceQuery.Proofs.Fallible
import ResourceQuery.Proofs.FirstOccurrences
import ResourceQuery.Query.Compile

namespace ResourceQuery

variable {r : Registry} {root : ResourceId} {wanted : List ResourceId} {q : Request}

/-! ## What a requested resource resolves to -/

namespace Registry

/-- on its own or from the root: no other resource is needed to reach it -/
def ReachedFrom (r : Registry) (root id : ResourceId) : Prop := r.parent? id = none ∨ r.parent? id = some root

/-- `id` is selected itself, or by `t`, its parent that is not requested -/
def ResolvesTo (r : Registry) (root : ResourceId) (wanted : List ResourceId) (id t : ResourceId) : Prop :=
  id ∈ r.ids ∧
    ((t = id ∧ r.ReachedFrom root id) ∨ (r.parent? id = some t ∧ t ∈ r.ids ∧ t ∉ wanted ∧ t ≠ root))

instance (r : Registry) (root id : ResourceId) : Decidable (r.ReachedFrom root id) := by
  unfold ReachedFrom; infer_instance

instance (r : Registry) (root : ResourceId) (wanted : List ResourceId) (id t : ResourceId) :
    Decidable (r.ResolvesTo root wanted id t) := by
  unfold ResolvesTo; infer_instance

/-- the resource that a requested one resolves to -/
def target? (r : Registry) (root : ResourceId) (wanted : List ResourceId) (id : ResourceId) : Option ResourceId :=
  ((r.get? id).bind (r.carrier? root wanted id)).map Prod.fst

/-- the carrier of a resource is what it resolves to, with its own metadata -/
theorem carrier?_eq_some_iff {id t : ResourceId} {m n : Metadata} (h : r.get? id = some m) :
    r.carrier? root wanted id m = some (t, n) ↔ r.ResolvesTo root wanted id t ∧ r.get? t = some n := by
  have hid : id ∈ r.ids := mem_ids_of_get? h
  rw [ResolvesTo, ReachedFrom, parent?_of_get? h, carrier?]
  cases hp : m.parent with
  | none => grind
  | some p =>
    by_cases hr : p = root
    · grind
    · by_cases hw : p ∈ wanted
      · grind
      · simp only [hr, hw, if_false, Option.map_eq_some_iff, Prod.mk.injEq]
        grind [mem_ids_iff]

theorem target?_eq_some_iff {id t : ResourceId} :
    r.target? root wanted id = some t ↔ r.ResolvesTo root wanted id t := by
  constructor
  · intro h
    obtain ⟨⟨t', n⟩, hc, rfl⟩ := Option.map_eq_some_iff.1 h
    obtain ⟨m, hm, hc⟩ := Option.bind_eq_some_iff.1 hc
    exact ((carrier?_eq_some_iff hm).1 hc).1
  · intro h
    obtain ⟨m, hm⟩ := mem_ids_iff.1 h.1
    have ht : t ∈ r.ids := by
      rcases h.2 with ⟨rfl, -⟩ | ⟨-, ht, -⟩
      · exact h.1
      · exact ht
    obtain ⟨n, hn⟩ := mem_ids_iff.1 ht
    simp [target?, hm, (carrier?_eq_some_iff hm).2 ⟨h, hn⟩]

/-! ## Placing -/

/-- All that placing one resource can do: nothing, if it resolves to nothing or to something selected before, and else
to select what it resolves to. The parent links of a registered resource run in no cycle then. -/
theorem place_cases {d d' : Draft} {id : ResourceId} (h : r.place root wanted d id = .ok d') :
    (id ∈ r.ids → ∃ chain, r.parentChain id = .ok chain) ∧
      (((∀ t, ¬ r.ResolvesTo root wanted id t) ∧ d' = d) ∨
        ∃ t m, r.ResolvesTo root wanted id t ∧ r.get? t = some m ∧
          ((t ∈ d.selected ∧ d' = d) ∨
            (t ∉ d.selected ∧ ∃ declared, d.declared.merge (r.selection wanted t m).declarations = .ok declared ∧
              d' = ⟨declared, d.selections ++ [r.selection wanted t m]⟩))) := by
  unfold place at h
  cases hid : r.get? id with
  | none =>
    simp only [hid, Except.ok.injEq] at h
    have hno : id ∉ r.ids := get?_eq_none_iff.1 hid
    refine ⟨fun hm => absurd hm hno, .inl ⟨?_, h.symm⟩⟩
    intro t ht
    exact hno ht.1
  | some m =>
    simp only [hid] at h
    obtain ⟨_, hcheck, h⟩ := except_bind_eq_ok.1 h
    obtain ⟨chain, hchain, -⟩ := except_bind_eq_ok.1 hcheck
    refine ⟨fun _ => ⟨chain, mapError_eq_ok.1 hchain⟩, ?_⟩
    cases hc : r.carrier? root wanted id m with
    | none =>
      simp only [hc] at h
      refine .inl ⟨?_, (Except.ok.inj h).symm⟩
      intro t ht
      have hsome := target?_eq_some_iff.2 ht
      simp [target?, hid, hc] at hsome
    | some carrier =>
      obtain ⟨t, n⟩ := carrier
      obtain ⟨ht, hn⟩ := (carrier?_eq_some_iff hid).1 hc
      refine .inr ⟨t, n, ht, hn, ?_⟩
      simp only [hc] at h
      split at h
      · rename_i hsel
        exact .inl ⟨hsel, (Except.ok.inj h).symm⟩
      · rename_i hsel
        obtain ⟨declared, hmerge, h⟩ := except_bind_eq_ok.1 h
        exact .inr ⟨hsel, declared, mapError_eq_ok.1 hmerge, (Except.ok.inj h).symm⟩

/-- what holds of a draft once the resources `done` are placed -/
structure Placed (r : Registry) (root : ResourceId) (wanted done : List ResourceId) (d : Draft) : Prop where
  /-- the top level is what they resolve to, in the order of the first that does -/
  selected : d.selected = (done.filterMap (r.target? root wanted)).eraseDups
  /-- every selection is that of a registered resource, with all it can embed -/
  selections : ∀ s ∈ d.selections, ∃ m, r.get? s.id = some m ∧ s = r.selection wanted s.id m

theorem placed_nil (declared : VariableSet) : r.Placed root wanted [] ⟨declared, []⟩ := by
  constructor <;> simp [Draft.selected]

/-- placing one more resource keeps the invariant -/
theorem place_placed {done : List ResourceId} {d d' : Draft} {id : ResourceId} (hd : r.Placed root wanted done d)
    (h : r.place root wanted d id = .ok d') : r.Placed root wanted (done ++ [id]) d' := by
  have known : ∀ t, t ∈ d.selected ↔ t ∈ done.filterMap (r.target? root wanted) := by
    intro t
    rw [hd.selected, List.mem_eraseDups]
  rcases (place_cases h).2 with ⟨hno, rfl⟩ | ⟨t, m, ht, hm, ⟨hsel, rfl⟩ | ⟨hsel, declared, -, rfl⟩⟩
  · refine ⟨?_, hd.selections⟩
    have hnone : r.target? root wanted id = none :=
      Option.eq_none_iff_forall_ne_some.2 fun t ht => hno t (target?_eq_some_iff.1 ht)
    rw [filterMap_concat_none done hnone]
    exact hd.selected
  · refine ⟨?_, hd.selections⟩
    rw [filterMap_concat_some done (target?_eq_some_iff.2 ht), eraseDups_concat, if_pos ((known t).1 hsel)]
    exact hd.selected
  · constructor
    · rw [filterMap_concat_some done (target?_eq_some_iff.2 ht), eraseDups_concat, if_neg (mt (known t).2 hsel),
        ← hd.selected]
      simp [Draft.selected, selection]
    · intro s hs
      rcases List.mem_append.1 hs with hs | hs
      · exact hd.selections s hs
      · rw [List.mem_singleton.1 hs]
        exact ⟨m, hm, rfl⟩

/-- a whole run keeps the invariant -/
theorem foldlM_place_placed {done ids : List ResourceId} {d d' : Draft} (hd : r.Placed root wanted done d)
    (h : ids.foldlM (r.place root wanted) d = .ok d') : r.Placed root wanted (done ++ ids) d' := by
  induction ids generalizing done d with
  | nil =>
    cases h
    simpa using hd
  | cons id ids ih =>
    obtain ⟨d₁, h₁, h⟩ := except_bind_eq_ok.1 h
    simpa using ih (place_placed hd h₁) h

end Registry

/-! ## Answers -/

namespace Request

/-- the answer `out` is read off the draft `d`, under the root's entry -/
structure Answers (q : Request) (r : Registry) (root : Metadata) (d : Draft) (out : CompiledQuery) : Prop where
  registered : r.get? q.root = some root
  drafted : q.draft r root = .ok d
  document : out.document = d.document root
  declarations : out.declarations = d.declared.toList
  resources : out.resources = q.resources d
  skipped : out.skipped = q.skipped r d
  strict : q.strict = true → out.skipped = []

theorem compile_eq_ok_iff {out : CompiledQuery} :
    q.compile r = .ok out ↔ ∃ root d, q.Answers r root d out := by
  unfold compile
  constructor
  · intro h
    split at h
    · cases h
    · rename_i root hroot
      obtain ⟨d, hd, h⟩ := except_bind_eq_ok.1 h
      simp only at h
      split at h
      · cases h
      · rename_i hstrict
        cases h
        exact ⟨root, d, hroot, hd, rfl, rfl, rfl, rfl, fun hs => by simpa [hs] using hstrict⟩
  · rintro ⟨root, d, hroot, hd, h1, h2, h3, h4, h5⟩
    obtain ⟨document, declarations, resources, skipped⟩ := out
    simp only at h1 h2 h3 h4 h5
    have hstrict : ¬ (q.strict = true ∧ q.skipped r d ≠ []) := by
      rintro ⟨hs, hne⟩
      exact hne (h4 ▸ h5 hs)
    simp only [hroot]
    refine except_bind_eq_ok.2 ⟨d, hd, ?_⟩
    simp only [hstrict, if_false, h1, h2, h3, h4]

/-- the finished draft of a request has placed all that is wanted -/
theorem draft_placed {root : Metadata} {d : Draft} (h : q.draft r root = .ok d) :
    r.Placed q.root q.wanted q.wanted d := by
  obtain ⟨-, -, h⟩ := except_bind_eq_ok.1 h
  obtain ⟨declared, -, h⟩ := except_bind_eq_ok.1 h
  simpa using Registry.foldlM_place_placed (Registry.placed_nil declared) h

/-- the strict request fails with what is left out, if anything is -/
theorem compile_strict {root : Metadata} {d : Draft} {out : CompiledQuery} (h : q.Answers r root d out)
    (hne : out.skipped ≠ []) : (q.withStrict true).compile r = .error (.unresolved out.skipped) := by
  have hd : (q.withStrict true).draft r root = .ok d := h.drafted
  have hs : (q.withStrict true).skipped r d = out.skipped := h.skipped.symm
  have hroot : r.get? (q.withStrict true).root = some root := h.registered
  unfold compile
  simp only [hroot, hd]
  have : (q.withStrict true).strict = true := rfl
  simp [bind, Except.bind, hs, hne, this]

end Request

end ResourceQuery
