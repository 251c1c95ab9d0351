/-
What a set of variables makes of the declarations it is offered.

Declarations agree when no name among them has two types. A set takes declarations up to the first that disagrees with
one before it, or with one in the set: it then holds the first occurrences of all that was taken, and the conflict names
the two types.

Results:
- `insert_cases`: the three outcomes of one more declaration.
- `extend_cases`: the two outcomes of a list of declarations, each with what the set holds afterwards.
- `merge_empty_eq_ok_iff`: declarations merge exactly if they agree, into their first occurrences.
- `firstConflict_of_merge`: a failed merge names the first conflict.
-/
import ResourceQuery.Proofs.FirstOccurrences
import ResourceQuery.Query.VariableSet

namespace ResourceQuery

/-- no name has two types -/
def Agree (vs : List Variable) : Prop := ∀ v ∈ vs, ∀ w ∈ vs, v.name = w.name → v.type = w.type

instance (vs : List Variable) : Decidable (Agree vs) := by
  unfold Agree; infer_instance

/-- The declarations agree up to one whose name came before with another type: `c` has that name, the type that came
first, and the other one. -/
def FirstConflict (vs : List Variable) (c : Conflict) : Prop :=
  ∃ before after, vs = before ++ ⟨c.name, c.second⟩ :: after ∧ Agree before ∧ ⟨c.name, c.first⟩ ∈ before ∧
    c.first ≠ c.second

theorem Agree.mono {vs ws : List Variable} (h : Agree ws) (hsub : ∀ v ∈ vs, v ∈ ws) : Agree vs :=
  fun v hv w hw => h v (hsub v hv) w (hsub w hw)

theorem FirstConflict.first_mem {vs : List Variable} {c : Conflict} (h : FirstConflict vs c) :
    ⟨c.name, c.first⟩ ∈ vs := by
  obtain ⟨before, after, rfl, -, hfirst, -⟩ := h
  exact List.mem_append_left _ hfirst

theorem FirstConflict.second_mem {vs : List Variable} {c : Conflict} (h : FirstConflict vs c) :
    ⟨c.name, c.second⟩ ∈ vs := by
  obtain ⟨before, after, rfl, -⟩ := h
  exact List.mem_append_right _ List.mem_cons_self

theorem FirstConflict.ne {vs : List Variable} {c : Conflict} (h : FirstConflict vs c) : c.first ≠ c.second := by
  obtain ⟨-, -, -, -, -, hne⟩ := h
  exact hne

theorem FirstConflict.not_agree {vs : List Variable} {c : Conflict} (h : FirstConflict vs c) : ¬ Agree vs :=
  fun hagree => h.ne (hagree _ h.first_mem _ h.second_mem rfl)

namespace VariableSet

/-! ## What a set holds -/

theorem mem_toList_iff {s : VariableSet} {v : Variable} : v ∈ s.toList ↔ s.types.get? v.name = some v.type := by
  rw [OrderedMap.get?_eq_some_iff, toList, List.mem_map]
  constructor
  · rintro ⟨e, he, rfl⟩
    exact he
  · intro h
    exact ⟨_, h, rfl⟩

theorem agree_toList (s : VariableSet) : Agree s.toList := by
  intro v hv w hw hname
  have hvt := mem_toList_iff.1 hv
  rw [hname, mem_toList_iff.1 hw] at hvt
  exact (Option.some.inj hvt).symm

theorem nodup_toList (s : VariableSet) : s.toList.Nodup := List.Nodup.of_map _ s.names_nodup

theorem toList_injective {s t : VariableSet} (h : s.toList = t.toList) : s = t := by
  obtain ⟨⟨es, hes⟩⟩ := s
  obtain ⟨⟨fs, hfs⟩⟩ := t
  have hpair : Function.Injective fun e : String × String => (⟨e.1, e.2⟩ : Variable) := by
    intro a b hab
    exact Prod.ext (congrArg Variable.name hab) (congrArg Variable.type hab)
  cases List.map_injective_iff.2 hpair h
  rfl

/-! ## One more declaration -/

/-- A declaration is in the set, or has a name that is new to the set, or conflicts with one in the set. -/
theorem insert_cases (s : VariableSet) (v : Variable) :
    (v ∈ s.toList ∧ s.insert v = .ok (s, false)) ∨
    (∃ t, s.insert v = .ok (t, true) ∧ Agree (s.toList ++ [v]) ∧ v ∉ s.toList ∧ t.toList = s.toList ++ [v]) ∨
    ∃ type, ⟨v.name, type⟩ ∈ s.toList ∧ type ≠ v.type ∧ s.insert v = .error ⟨v.name, type, v.type⟩ := by
  unfold insert
  cases hget : s.types.get? v.name with
  | none =>
    refine .inr (.inl ⟨_, rfl, ?_, ?_, ?_⟩)
    · have hother : ∀ w ∈ s.toList, w.name ≠ v.name := by
        intro w hw hname
        rw [← hname, mem_toList_iff.1 hw] at hget
        cases hget
      intro a ha b hb hname
      rcases List.mem_append.1 ha with ha | ha <;> rcases List.mem_append.1 hb with hb | hb
      · exact s.agree_toList a ha b hb hname
      · rw [List.mem_singleton.1 hb] at hname
        exact absurd hname (hother a ha)
      · rw [List.mem_singleton.1 ha] at hname
        exact absurd hname.symm (hother b hb)
      · rw [List.mem_singleton.1 ha, List.mem_singleton.1 hb]
    · intro hv
      rw [mem_toList_iff.1 hv] at hget
      cases hget
    · have hnew : v.name ∉ s.types.entries.map Prod.fst := OrderedMap.get?_eq_none_iff.1 hget
      simp [toList, OrderedMap.insert, OrderedMap.upsert_of_notMem hnew]
  | some type =>
    have hmem : ⟨v.name, type⟩ ∈ s.toList := mem_toList_iff.2 hget
    by_cases htype : type = v.type
    · subst htype
      exact .inl ⟨hmem, by simp⟩
    · exact .inr (.inr ⟨type, hmem, htype, by simp [htype]⟩)

/-! ## Lists of declarations -/

/-- A list agrees with a set, which then holds the first occurrences in both; or it agrees up to the first conflict, and
the set holds the first occurrences up to there. -/
theorem extend_cases (s : VariableSet) (vs : List Variable) :
    (∃ t, s.extend vs = (t, none) ∧ Agree (s.toList ++ vs) ∧ t.toList = (s.toList ++ vs).eraseDups) ∨
    ∃ t c before after, s.extend vs = (t, some c) ∧ vs = before ++ ⟨c.name, c.second⟩ :: after ∧
      Agree (s.toList ++ before) ∧ ⟨c.name, c.first⟩ ∈ s.toList ++ before ∧ c.first ≠ c.second ∧
      t.toList = (s.toList ++ before).eraseDups := by
  induction vs generalizing s with
  | nil =>
    refine .inl ⟨s, rfl, ?_, ?_⟩
    · rw [List.append_nil]
      exact s.agree_toList
    · rw [List.append_nil, eraseDups_of_nodup s.nodup_toList]
  | cons v rest ih =>
    rcases s.insert_cases v with ⟨hv, hins⟩ | ⟨t, hins, hagree, hv, ht⟩ | ⟨type, hmem, htype, hins⟩
    · -- the set knows `v`: it stays as it is, and `v` adds no first occurrence
      have hext : s.extend (v :: rest) = s.extend rest := by simp [extend, hins]
      have hmem : ∀ ws, ∀ w ∈ s.toList ++ v :: ws, w ∈ s.toList ++ ws := by
        intro ws w hw
        rcases List.mem_append.1 hw with hw | hw
        · exact List.mem_append_left _ hw
        · rcases List.mem_cons.1 hw with rfl | hw
          · exact List.mem_append_left _ hv
          · exact List.mem_append_right _ hw
      rcases ih s with ⟨u, hu, hag, hlist⟩ | ⟨u, c, before, after, hu, rfl, hag, hfirst, hne, hlist⟩
      · exact .inl ⟨u, hext.trans hu, hag.mono (hmem rest), by rw [hlist, eraseDups_append_cons_of_mem hv]⟩
      · refine .inr ⟨u, c, v :: before, after, hext.trans hu, rfl, hag.mono (hmem before), ?_, hne, ?_⟩
        · rcases List.mem_append.1 hfirst with hf | hf
          · exact List.mem_append_left _ hf
          · exact List.mem_append_right _ (List.mem_cons_of_mem _ hf)
        · rw [hlist, eraseDups_append_cons_of_mem hv]
    · -- the set takes `v` at its end
      have hext : s.extend (v :: rest) = t.extend rest := by simp [extend, hins]
      have hshift : ∀ ws, t.toList ++ ws = s.toList ++ v :: ws := by
        intro ws
        rw [ht, List.append_assoc, List.singleton_append]
      rcases ih t with ⟨u, hu, hag, hlist⟩ | ⟨u, c, before, after, hu, rfl, hag, hfirst, hne, hlist⟩
      · rw [hshift] at hag hlist
        exact .inl ⟨u, hext.trans hu, hag, hlist⟩
      · rw [hshift] at hag hfirst hlist
        exact .inr ⟨u, c, v :: before, after, hext.trans hu, rfl, hag, hfirst, hne, hlist⟩
    · refine .inr ⟨s, ⟨v.name, type, v.type⟩, [], rest, ?_, rfl, ?_, ?_, htype, ?_⟩
      · simp [extend, hins]
      · rw [List.append_nil]
        exact s.agree_toList
      · rw [List.append_nil]
        exact hmem
      · rw [List.append_nil, eraseDups_of_nodup s.nodup_toList]

theorem merge_append_of_ok {s t : VariableSet} {as : List Variable} (h : s.merge as = .ok t) (bs : List Variable) :
    s.merge (as ++ bs) = t.merge bs := by
  unfold merge at h ⊢
  rw [extend_append]
  rcases hext : s.extend as with ⟨u, _ | c⟩
  · rw [hext] at h
    cases h
    rfl
  · rw [hext] at h
    cases h

theorem merge_append_of_error {s : VariableSet} {as : List Variable} {c : Conflict} (h : s.merge as = .error c)
    (bs : List Variable) : s.merge (as ++ bs) = .error c := by
  unfold merge at h ⊢
  rw [extend_append]
  rcases hext : s.extend as with ⟨u, _ | c'⟩
  · rw [hext] at h
    cases h
  · rw [hext] at h
    exact h

/-! ## Merging into the empty set -/

@[simp] theorem toList_empty : ({} : VariableSet).toList = [] := rfl

/-- declarations merge exactly if they agree, into their first occurrences -/
theorem merge_empty_eq_ok_iff {vs : List Variable} {t : VariableSet} :
    ({} : VariableSet).merge vs = .ok t ↔ Agree vs ∧ t.toList = vs.eraseDups := by
  unfold merge
  rcases extend_cases {} vs with ⟨u, hu, hag, hlist⟩ | ⟨u, c, before, after, hu, hvs, hag, hfirst, hne, hlist⟩
  · rw [toList_empty, List.nil_append] at hag hlist
    simp only [hu, Except.ok.injEq]
    constructor
    · rintro rfl
      exact ⟨hag, hlist⟩
    · rintro ⟨-, ht⟩
      exact toList_injective (hlist.trans ht.symm)
  · rw [toList_empty, List.nil_append] at hag hfirst
    have hno : ¬ Agree vs := FirstConflict.not_agree ⟨before, after, hvs, hag, hfirst, hne⟩
    simp [hu, hno]

/-- a failed merge names the first conflict -/
theorem firstConflict_of_merge {vs : List Variable} {c : Conflict} (h : ({} : VariableSet).merge vs = .error c) :
    FirstConflict vs c := by
  unfold merge at h
  rcases extend_cases {} vs with ⟨u, hu, -, -⟩ | ⟨u, c', before, after, hu, hvs, hag, hfirst, hne, -⟩
  · simp [hu] at h
  · simp only [hu, Except.error.injEq] at h
    subst h
    rw [toList_empty, List.nil_append] at hag hfirst
    exact ⟨before, after, hvs, hag, hfirst, hne⟩

end VariableSet

end ResourceQuery
