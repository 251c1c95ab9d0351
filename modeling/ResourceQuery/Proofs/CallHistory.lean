/-
What a set of variables holds after any calls.

A call offers declarations in order, and processes them up to the first that clashes: one with the name, but not the
type, of a declaration that is known by then. A single declaration is a list of one, so a call is an `extend`. All that
a set holds after some calls is the first declaration of each name among what these calls have processed; the one that
a failing call stops at repeats a name and adds nothing.

Results:
- `firstByName_append`, `firstByName_again`: the first declaration of each name, and what more declarations add.
- `call_eq_extend`: a call is an `extend` of what it offers.
- `toList_extend`, `toList_run`: what a call adds, and so what a run of calls leaves.
- `extend_eq_some_iff`: a failing call stops at a clash, with everything before it merged.
- `exists_conflict_iff`: a call fails exactly if something that it processes clashes.
- `equivalent_iff`: sets are equal exactly if they hold the same declarations.
- `run_keeps_first_declarations`: these for every sequence of calls on one set.
-/
import ResourceQuery.Proofs.Merging

namespace ResourceQuery

variable {vs : List Variable} {v : Variable}

/-! ## The first declaration of each name -/

/-- the first declaration of each name, in order -/
def firstByName : List Variable → List Variable
  | [] => []
  | v :: rest => v :: (firstByName rest).filter fun w => w.name ≠ v.name

theorem mem_names_firstByName {name : String} :
    name ∈ (firstByName vs).map Variable.name ↔ name ∈ vs.map Variable.name := by
  induction vs with
  | nil => rfl
  | cons v rest ih =>
    by_cases hname : name = v.name
    · simp [firstByName, hname]
    · rw [List.map_cons, List.mem_cons, ← ih]
      simp only [firstByName, List.map_cons, List.mem_cons, hname, false_or, List.mem_map, List.mem_filter,
        decide_eq_true_eq]
      constructor
      · rintro ⟨w, ⟨hw, -⟩, rfl⟩
        exact ⟨w, hw, rfl⟩
      · rintro ⟨w, hw, rfl⟩
        exact ⟨w, ⟨hw, hname⟩, rfl⟩

theorem nodup_firstByName (vs : List Variable) : ((firstByName vs).map Variable.name).Nodup := by
  induction vs with
  | nil => exact List.nodup_nil
  | cons v rest ih =>
    rw [firstByName, List.map_cons, List.nodup_cons]
    refine ⟨?_, ih.sublist (List.filter_sublist.map _)⟩
    simp

/-- more declarations add those of names that were not there -/
theorem firstByName_append (as bs : List Variable) :
    firstByName (as ++ bs) = firstByName as ++ (firstByName bs).filter fun w => w.name ∉ as.map Variable.name := by
  induction as with
  | nil => simp [firstByName]
  | cons a as ih =>
    rw [List.cons_append, firstByName, firstByName, ih, List.filter_append, List.filter_filter, List.cons_append]
    congr 2
    refine List.filter_congr fun w _ => ?_
    simp

theorem firstByName_of_nodup (h : (vs.map Variable.name).Nodup) : firstByName vs = vs := by
  induction vs with
  | nil => rfl
  | cons v rest ih =>
    obtain ⟨hv, hrest⟩ := List.nodup_cons.1 h
    rw [firstByName, ih hrest, List.filter_eq_self.2]
    intro w hw
    exact decide_eq_true fun hname => hv (hname ▸ List.mem_map_of_mem hw)

/-- of what was there before, the first declarations are enough to know -/
theorem firstByName_again (as bs : List Variable) : firstByName (firstByName as ++ bs) = firstByName (as ++ bs) := by
  rw [firstByName_append, firstByName_append, firstByName_of_nodup (nodup_firstByName as)]
  simp only [mem_names_firstByName]

theorem firstByName_concat (vs : List Variable) (v : Variable) :
    firstByName (vs ++ [v]) = if v.name ∈ vs.map Variable.name then firstByName vs else firstByName vs ++ [v] := by
  rw [firstByName_append]
  split_ifs with h
  · simp only [firstByName, List.filter_nil, List.filter_cons, h, not_true, decide_false, Bool.false_eq_true, if_false,
      List.append_nil]
  · simp only [firstByName, List.filter_nil, List.filter_cons, h, not_false_eq_true, decide_true, if_true]

/-- where no name has two types, the first of each name are the first occurrences -/
theorem firstByName_of_agree (h : Agree vs) : firstByName vs = vs.eraseDups := by
  induction vs using List.reverseRecOn with
  | nil => rfl
  | append_singleton vs v ih =>
    have hmem : v.name ∈ vs.map Variable.name ↔ v ∈ vs := by
      constructor
      · intro hname
        obtain ⟨w, hw, hname⟩ := List.mem_map.1 hname
        have htype := h w (List.mem_append_left _ hw) v (List.mem_append_right _ (List.mem_singleton_self v)) hname
        obtain ⟨wname, wtype⟩ := w
        obtain ⟨vname, vtype⟩ := v
        cases hname
        cases htype
        exact hw
      · exact List.mem_map_of_mem
    have hvs : Agree vs := h.mono fun w hw => List.mem_append_left _ hw
    simp only [firstByName_concat, eraseDups_concat, hmem, ih hvs]

/-! ## What a call processes -/

/-- the declaration has the name, but not the type, of a known one -/
def Clashes (known : List Variable) (v : Variable) : Prop := ∃ w ∈ known, w.name = v.name ∧ w.type ≠ v.type

instance (known : List Variable) (v : Variable) : Decidable (Clashes known v) := by
  unfold Clashes; infer_instance

/-- what is processed of a list: all up to the first that clashes with a known one or with one before it, and that one -/
def processed (known : List Variable) : List Variable → List Variable
  | [] => []
  | v :: rest => if Clashes known v then [v] else v :: processed (known ++ [v]) rest

theorem Agree.not_clashes {known rest : List Variable} (h : Agree (known ++ v :: rest)) : ¬ Clashes known v := by
  rintro ⟨w, hw, hname, htype⟩
  exact htype (h w (List.mem_append_left _ hw) v (List.mem_append_right _ List.mem_cons_self) hname)

theorem processed_append {known before : List Variable} (h : Agree (known ++ before)) (rest : List Variable) :
    processed known (before ++ rest) = before ++ processed (known ++ before) rest := by
  induction before generalizing known with
  | nil => rw [List.append_nil, List.nil_append, List.nil_append]
  | cons v before ih =>
    have hshift : known ++ [v] ++ before = known ++ v :: before := by simp
    rw [List.cons_append, processed, if_neg h.not_clashes, ih (hshift ▸ h), hshift, List.cons_append]

theorem processed_of_agree {known : List Variable} (h : Agree (known ++ vs)) : processed known vs = vs := by
  have := processed_append h []
  rwa [List.append_nil, processed, List.append_nil] at this

theorem processed_of_clashes {known before : List Variable} (h : Agree (known ++ before))
    (hv : Clashes (known ++ before) v) (after : List Variable) :
    processed known (before ++ v :: after) = before ++ [v] := by
  rw [processed_append h, processed, if_pos hv]

namespace VariableSet

variable {s t : VariableSet} {k : Conflict}

/-! ## Calls -/

/-- a call on a set -/
inductive Call where
  | insert (v : Variable)
  | extend (vs : List Variable)
deriving DecidableEq, Repr

/-- the declarations that a call offers -/
def Call.offered : Call → List Variable
  | insert v => [v]
  | extend vs => vs

/-- the set after a call, and the conflict that the call fails with -/
def call (s : VariableSet) : Call → VariableSet × Option Conflict
  | .insert v =>
    match s.insert v with
    | .ok (t, _) => (t, none)
    | .error conflict => (s, some conflict)
  | .extend vs => s.extend vs

/-- the set after calls in a row; one that fails does not keep the next from being made -/
def run (s : VariableSet) (calls : List Call) : VariableSet := calls.foldl (fun s c => (s.call c).1) s

/-- what has been processed so far, and then what a call on a set of the first declarations processes -/
def continued (past : List Variable) (c : Call) : List Variable := past ++ processed (firstByName past) c.offered

/-- all declarations that calls on an empty set process, in order -/
def history (calls : List Call) : List Variable := calls.foldl continued []

/-- a single declaration is a list of one -/
theorem call_eq_extend (s : VariableSet) (c : Call) : s.call c = s.extend c.offered := by
  cases c with
  | insert v =>
    rw [call, Call.offered, extend]
    cases s.insert v <;> rfl
  | extend vs => rfl

/-! ## One call -/

/-- a set takes the first declaration of each name that it does not have -/
theorem toList_extend (s : VariableSet) (vs : List Variable) :
    (s.extend vs).1.toList = firstByName (s.toList ++ processed s.toList vs) := by
  rcases s.extend_cases vs with ⟨t, hext, hagree, ht⟩ | ⟨t, k, before, after, hext, rfl, hagree, hfirst, hne, ht⟩
  · rw [hext, processed_of_agree hagree, firstByName_of_agree hagree]
    exact ht
  · have hclash : Clashes (s.toList ++ before) ⟨k.name, k.second⟩ := ⟨_, hfirst, rfl, hne⟩
    have hname : k.name ∈ (s.toList ++ before).map Variable.name := List.mem_map_of_mem hfirst
    -- the clashing declaration is processed, but its name is there already
    rw [hext, processed_of_clashes hagree hclash, ← List.append_assoc, firstByName_concat, if_pos hname,
      firstByName_of_agree hagree]
    exact ht

/-- A list fails to merge exactly by a declaration that it comes to when all before it are merged, where the set then
has the name with another type. -/
theorem extend_eq_some_iff :
    s.extend vs = (t, some k) ↔
      ∃ before after, vs = before ++ ⟨k.name, k.second⟩ :: after ∧ s.extend before = (t, none) ∧
        ⟨k.name, k.first⟩ ∈ t.toList ∧ k.first ≠ k.second := by
  constructor
  · intro h
    rcases s.extend_cases vs with ⟨u, hext, -⟩ | ⟨u, c, before, after, hext, rfl, hagree, hfirst, hne, hu⟩
    · rw [hext] at h
      cases h
    · rw [hext] at h
      cases h
      -- the part before the clash agrees, so it merges into the same set
      rcases s.extend_cases before with ⟨w, hw, -, hlist⟩ | ⟨w, c, pre, post, -, rfl, -, hfirst', hne', -⟩
      · obtain rfl : w = t := toList_injective (hlist.trans hu.symm)
        refine ⟨before, after, rfl, hw, ?_, hne⟩
        rwa [hu, List.mem_eraseDups]
      · rw [← List.append_assoc] at hagree
        exact absurd ⟨_, hfirst', rfl, hne'⟩ hagree.not_clashes
  · rintro ⟨before, after, rfl, hbefore, hfirst, hne⟩
    have hinsert : t.insert ⟨k.name, k.second⟩ = .error k := by
      have hget : t.types.get? k.name = some k.first := mem_toList_iff.1 hfirst
      simp [insert, hget, hne]
    rw [extend_append, hbefore]
    simp [extend, hinsert]

/-- a list fails to merge exactly if something clashes in what is processed of it -/
theorem exists_conflict_iff :
    (∃ t k, s.extend vs = (t, some k)) ↔
      ∃ before v after, processed s.toList vs = before ++ v :: after ∧ Clashes (s.toList ++ before) v := by
  rcases s.extend_cases vs with ⟨t, hext, hagree, -⟩ | ⟨t, k, before, after, hext, rfl, hagree, hfirst, hne, -⟩
  · rw [hext, processed_of_agree hagree]
    constructor
    · rintro ⟨_, _, h⟩
      cases h
    · rintro ⟨before, v, after, rfl, hclash⟩
      rw [← List.append_assoc] at hagree
      exact absurd hclash hagree.not_clashes
  · have hclash : Clashes (s.toList ++ before) ⟨k.name, k.second⟩ := ⟨_, hfirst, rfl, hne⟩
    exact iff_of_true ⟨t, k, hext⟩ ⟨before, _, [], processed_of_clashes hagree hclash after, hclash⟩

/-- a single declaration that conflicts leaves the set as it was -/
theorem call_insert_eq_some (h : s.call (.insert v) = (t, some k)) : t = s := by
  rw [call_eq_extend, extend_eq_some_iff] at h
  obtain ⟨before, after, hsplit, hbefore, -⟩ := h
  obtain ⟨rfl, -⟩ : before = [] ∧ _ := by simpa [Call.offered, List.singleton_eq_append_iff] using hsplit
  exact (Prod.mk.inj hbefore).1.symm

/-! ## Runs of calls -/

/-- A set that holds the first declarations of some past holds, after a call, those of the past that the call
continues. -/
theorem toList_call {past : List Variable} (h : s.toList = firstByName past) (c : Call) :
    (s.call c).1.toList = firstByName (continued past c) := by
  rw [call_eq_extend, toList_extend, h, continued, firstByName_again]

theorem toList_run_from (calls : List Call) {past : List Variable} (h : s.toList = firstByName past) :
    (s.run calls).toList = firstByName (calls.foldl continued past) := by
  induction calls generalizing s past with
  | nil => exact h
  | cons c calls ih => exact ih (toList_call h c)

theorem toList_run (calls : List Call) : (run {} calls).toList = firstByName (history calls) :=
  toList_run_from calls rfl

/-! ## Equal sets -/

/-- sets are equal exactly if they hold the same declarations -/
theorem equivalent_iff {a b : VariableSet} : a.equivalent b = true ↔ ∀ v, v ∈ a.toList ↔ v ∈ b.toList := by
  simp only [equivalent, OrderedMap.sameEntries_iff, mem_toList_iff]
  constructor
  · intro h v
    rw [h]
  · intro h name
    refine Option.ext fun type => ?_
    exact h ⟨name, type⟩

end VariableSet

/-! ## Main result -/

open VariableSet

/-- **A set keeps first declarations.** After any calls, failed ones included, its names are distinct and it holds the
first declaration of each name among all that was processed. One more call fails exactly if something that it processes
has the name, but not the type, of one in the set or before it in the call. It then names the name, the type in the set
and the type offered, and has merged just what came before; a single declaration has changed nothing. Sets are equal
exactly if they hold the same declarations. -/
theorem run_keeps_first_declarations (calls : List Call) :
    ((run {} calls).toList.map Variable.name).Nodup ∧
    (run {} calls).toList = firstByName (history calls) ∧
    (∀ c, (∃ t k, (run {} calls).call c = (t, some k)) ↔
      ∃ before v after, processed (run {} calls).toList c.offered = before ++ v :: after ∧
        Clashes ((run {} calls).toList ++ before) v) ∧
    (∀ c t k, (run {} calls).call c = (t, some k) ↔
      ∃ before after, c.offered = before ++ ⟨k.name, k.second⟩ :: after ∧ (run {} calls).extend before = (t, none) ∧
        ⟨k.name, k.first⟩ ∈ t.toList ∧ k.first ≠ k.second) ∧
    (∀ v t k, (run {} calls).call (.insert v) = (t, some k) → t = run {} calls) ∧
    ∀ other : VariableSet, (run {} calls).equivalent other = true ↔
      ∀ v, v ∈ (run {} calls).toList ↔ v ∈ other.toList := by
  refine ⟨names_nodup _, toList_run calls, ?_, ?_, fun _ _ _ => call_insert_eq_some, fun _ => equivalent_iff⟩
  · intro c
    rw [call_eq_extend]
    exact exists_conflict_iff
  · intro c t k
    rw [call_eq_extend]
    exact extend_eq_some_iff

/-- calls of both kinds, of which the second and the third fail -/
def faultyCalls : List Call := [
  .insert ⟨"id", "ID!"⟩,
  .extend [⟨"login", "String!"⟩, ⟨"id", "String"⟩, ⟨"teams", "String"⟩],
  .insert ⟨"login", "Int"⟩,
  .extend [⟨"teams", "Int"⟩]]

/-- A name offered behind a clash is free for another type later. A name that comes twice in one call clashes with its
own first type, and what is before the clash stays. -/
theorem faulty_calls_run :
    (run {} faultyCalls).toList = [⟨"id", "ID!"⟩, ⟨"login", "String!"⟩, ⟨"teams", "Int"⟩] ∧
    (∃ t, (run {} faultyCalls).call (.extend [⟨"after", "Int"⟩, ⟨"after", "String"⟩, ⟨"first", "Int"⟩]) =
        (t, some ⟨"after", "Int", "String"⟩) ∧
      ∃ before after, [⟨"after", "Int"⟩, ⟨"after", "String"⟩, ⟨"first", "Int"⟩] = before ++ ⟨"after", "String"⟩ :: after ∧
        (run {} faultyCalls).extend before = (t, none) ∧ ⟨"after", "Int"⟩ ∈ t.toList ∧ "Int" ≠ "String") ∧
    ∃ t, (run {} faultyCalls).call (.insert ⟨"id", "String"⟩) = (t, some ⟨"id", "ID!", "String"⟩) ∧
      t = run {} faultyCalls := by
  obtain ⟨-, hlist, -, hfails, hinsert, -⟩ := run_keeps_first_declarations faultyCalls
  have hhistory : history faultyCalls =
      [⟨"id", "ID!"⟩, ⟨"login", "String!"⟩, ⟨"id", "String"⟩, ⟨"login", "Int"⟩, ⟨"teams", "Int"⟩] := by decide
  have hfirst : firstByName [⟨"id", "ID!"⟩, ⟨"login", "String!"⟩, ⟨"id", "String"⟩, ⟨"login", "Int"⟩, ⟨"teams", "Int"⟩] =
      [⟨"id", "ID!"⟩, ⟨"login", "String!"⟩, ⟨"teams", "Int"⟩] := by decide
  have htwice : (run {} faultyCalls).call (.extend [⟨"after", "Int"⟩, ⟨"after", "String"⟩, ⟨"first", "Int"⟩]) =
      (((run {} faultyCalls).extend [⟨"after", "Int"⟩]).1, some ⟨"after", "Int", "String"⟩) := by decide +kernel
  have hknown : (run {} faultyCalls).call (.insert ⟨"id", "String"⟩) =
      (run {} faultyCalls, some ⟨"id", "ID!", "String"⟩) := by decide +kernel
  refine ⟨by rw [hlist, hhistory, hfirst], ⟨_, htwice, ?_⟩, ⟨_, hknown, hinsert _ _ _ hknown⟩⟩
  exact (hfails _ _ _).1 htwice

end ResourceQuery
