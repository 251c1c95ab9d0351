/-
Maps that remember the order in which their keys first came.

A map is its list of entries, with pairwise distinct keys. `insert` gives a key that is already there its new value at
the place it has, and appends a key that is new. So the order of the keys is the order of their first insertion, and the
value of a key is the one inserted last.

Results:
- `get?_insert`: a look-up after an insertion.
- `keys_insert`: an insertion leaves the keys alone or appends one.
- `get?_eq_some_iff`: the entries are exactly the key-value pairs that a look-up finds.
- `ext_keys_get?`: keys in order and look-ups together determine the map.
- `sameEntries_iff`: look-ups alone determine it up to the order of its entries.
- `keys_ofList`, `get?_ofList`: a map built from pairs has the distinct keys in order of first occurrence, each with the
  value of its last pair.
- `entries_ofList`: pairs with distinct keys are the entries of the map built from them.
-/

namespace ResourceQuery

/-- key-value pairs with pairwise distinct keys, in order of first insertion -/
structure OrderedMap (κ ν : Type) where
  entries : List (κ × ν)
  nodup : (entries.map Prod.fst).Nodup
deriving DecidableEq, Repr

namespace OrderedMap

variable {κ ν : Type}

/-! ## Operations -/

def empty : OrderedMap κ ν := ⟨[], by simp⟩

instance : EmptyCollection (OrderedMap κ ν) := ⟨empty⟩

instance : Inhabited (OrderedMap κ ν) := ⟨empty⟩

def keys (m : OrderedMap κ ν) : List κ := m.entries.map Prod.fst

def values (m : OrderedMap κ ν) : List ν := m.entries.map Prod.snd

def size (m : OrderedMap κ ν) : Nat := m.entries.length

def isEmpty (m : OrderedMap κ ν) : Bool := m.entries.isEmpty

variable [DecidableEq κ]

/-- the value of the first pair with the key -/
def lookup (k : κ) : List (κ × ν) → Option ν
  | [] => none
  | e :: rest => if e.1 = k then some e.2 else lookup k rest

/-- replaces the value of the first pair with the key, or appends a pair -/
def upsert (k : κ) (v : ν) : List (κ × ν) → List (κ × ν)
  | [] => [(k, v)]
  | e :: rest => if e.1 = k then (k, v) :: rest else e :: upsert k v rest

theorem map_fst_upsert (k : κ) (v : ν) (es : List (κ × ν)) :
    (upsert k v es).map Prod.fst =
      if k ∈ es.map Prod.fst then es.map Prod.fst else es.map Prod.fst ++ [k] := by
  induction es with
  | nil => simp [upsert]
  | cons e rest ih =>
    by_cases h : e.1 = k
    · simp [upsert, h]
    · simp only [upsert, h, if_false, List.map_cons, ih, List.mem_cons, Ne.symm h, false_or]
      split <;> simp

theorem upsert_of_notMem {k : κ} {es : List (κ × ν)} (h : k ∉ es.map Prod.fst) (v : ν) :
    upsert k v es = es ++ [(k, v)] := by
  induction es with
  | nil => rfl
  | cons e rest ih =>
    simp only [List.map_cons, List.mem_cons, not_or] at h
    simp [upsert, Ne.symm h.1, ih h.2]

theorem lookup_upsert (k k' : κ) (v : ν) (es : List (κ × ν)) :
    lookup k' (upsert k v es) = if k = k' then some v else lookup k' es := by
  induction es with
  | nil => simp [upsert, lookup]
  | cons e rest ih => grind [upsert, lookup]

theorem lookup_eq_some_iff {es : List (κ × ν)} (h : (es.map Prod.fst).Nodup) {k : κ} {v : ν} :
    lookup k es = some v ↔ (k, v) ∈ es := by
  induction es with
  | nil => simp [lookup]
  | cons e rest ih =>
    obtain ⟨a, b⟩ := e
    simp only [List.map_cons, List.nodup_cons, List.mem_map, Prod.exists, exists_and_right, exists_eq_right,
      not_exists] at h
    by_cases hk : a = k
    · subst hk
      simp only [lookup, if_true, Option.some.injEq, List.mem_cons, Prod.mk.injEq, true_and]
      constructor
      · exact fun e => .inl e.symm
      · exact fun e => e.elim Eq.symm fun hm => absurd hm (h.1 v)
    · simp [lookup, hk, ih h.2, Ne.symm hk]

theorem lookup_eq_none_iff {es : List (κ × ν)} {k : κ} : lookup k es = none ↔ k ∉ es.map Prod.fst := by
  induction es with
  | nil => simp [lookup]
  | cons e rest ih => grind [lookup]

def get? (m : OrderedMap κ ν) (k : κ) : Option ν := lookup k m.entries

def contains (m : OrderedMap κ ν) (k : κ) : Bool := (m.get? k).isSome

instance : Membership κ (OrderedMap κ ν) := ⟨fun m k => k ∈ m.keys⟩

instance (m : OrderedMap κ ν) (k : κ) : Decidable (k ∈ m) := inferInstanceAs (Decidable (k ∈ m.keys))

/-- a known key keeps its place and takes the new value; a new key goes to the end -/
def insert (m : OrderedMap κ ν) (k : κ) (v : ν) : OrderedMap κ ν where
  entries := upsert k v m.entries
  nodup := by
    rw [map_fst_upsert]
    split
    · exact m.nodup
    · rename_i h
      exact List.nodup_append.2 ⟨m.nodup, by simp, by
        intro a ha b hb
        rw [List.mem_singleton.1 hb]
        exact fun e => h (e ▸ ha)⟩

def ofList (pairs : List (κ × ν)) : OrderedMap κ ν := pairs.foldl (fun m p => m.insert p.1 p.2) ∅

/-- equality that ignores the order of the entries -/
def sameEntries [DecidableEq ν] (a b : OrderedMap κ ν) : Bool :=
  a.size == b.size && a.entries.all fun e => b.get? e.1 == some e.2

/-! ## Keys and look-ups -/

omit [DecidableEq κ] in
@[simp] theorem keys_empty : (∅ : OrderedMap κ ν).keys = [] := rfl

omit [DecidableEq κ] in
@[simp] theorem length_keys (m : OrderedMap κ ν) : m.keys.length = m.size := by simp [keys, size]

omit [DecidableEq κ] in
theorem nodup_keys (m : OrderedMap κ ν) : m.keys.Nodup := m.nodup

@[simp] theorem get?_empty (k : κ) : (∅ : OrderedMap κ ν).get? k = none := rfl

theorem keys_insert (m : OrderedMap κ ν) (k : κ) (v : ν) :
    (m.insert k v).keys = if k ∈ m.keys then m.keys else m.keys ++ [k] :=
  map_fst_upsert k v m.entries

theorem get?_insert (m : OrderedMap κ ν) (k k' : κ) (v : ν) :
    (m.insert k v).get? k' = if k = k' then some v else m.get? k' :=
  lookup_upsert k k' v m.entries

/-- the entries are exactly the pairs that a look-up finds -/
theorem get?_eq_some_iff {m : OrderedMap κ ν} {k : κ} {v : ν} : m.get? k = some v ↔ (k, v) ∈ m.entries :=
  lookup_eq_some_iff m.nodup

theorem get?_eq_none_iff {m : OrderedMap κ ν} {k : κ} : m.get? k = none ↔ k ∉ m.keys := lookup_eq_none_iff

theorem mem_keys_of_get? {m : OrderedMap κ ν} {k : κ} {v : ν} (h : m.get? k = some v) : k ∈ m.keys := by
  by_cases hk : k ∈ m.keys
  · exact hk
  · simp [get?_eq_none_iff.2 hk] at h

theorem contains_iff {m : OrderedMap κ ν} {k : κ} : m.contains k = true ↔ k ∈ m.keys := by
  rw [contains, Option.isSome_iff_ne_none, ne_eq, get?_eq_none_iff, Decidable.not_not]

theorem eq_of_lookup {as bs : List (κ × ν)} (hk : as.map Prod.fst = bs.map Prod.fst)
    (hn : (as.map Prod.fst).Nodup) (hl : ∀ k, lookup k as = lookup k bs) : as = bs := by
  induction as generalizing bs with
  | nil => simpa using hk.symm
  | cons a as ih =>
    cases bs with
    | nil => simp at hk
    | cons b bs =>
      simp only [List.map_cons, List.cons.injEq, List.nodup_cons] at hk hn
      have hv : a.2 = b.2 := by simpa [lookup, hk.1] using hl a.1
      rw [ih hk.2 hn.2 fun k => ?_, Prod.ext hk.1 hv]
      by_cases h : a.1 = k
      · subst h
        rw [lookup_eq_none_iff.2 hn.1, lookup_eq_none_iff.2 (by rw [← hk.2]; exact hn.1)]
      · simpa [lookup, h, hk.1 ▸ h] using hl k

omit [DecidableEq κ] in
theorem ext_entries {a b : OrderedMap κ ν} (h : a.entries = b.entries) : a = b := by
  obtain ⟨as, ha⟩ := a
  obtain ⟨bs, hb⟩ := b
  cases h
  rfl

/-- keys in order and look-ups determine the map -/
theorem ext_keys_get? {a b : OrderedMap κ ν} (hk : a.keys = b.keys) (hg : ∀ k, a.get? k = b.get? k) : a = b := by
  exact ext_entries (eq_of_lookup hk a.nodup hg)

/-! ## Equality up to order -/

theorem keys_subset_of_get? {a b : OrderedMap κ ν} (h : ∀ k, k ∈ a.keys → a.get? k = b.get? k) : a.keys ⊆ b.keys := by
  intro k hk
  rw [← contains_iff, contains, ← h k hk]
  exact contains_iff.2 hk

/-- maps have the same entries, in whatever order, exactly if all look-ups agree -/
theorem sameEntries_iff [DecidableEq ν] {a b : OrderedMap κ ν} :
    a.sameEntries b = true ↔ ∀ k, a.get? k = b.get? k := by
  simp only [sameEntries, Bool.and_eq_true, beq_iff_eq, List.all_eq_true, ← length_keys]
  constructor
  · rintro ⟨hsize, hentries⟩ k
    have hfound : ∀ k, k ∈ a.keys → a.get? k = b.get? k := by
      intro k hk
      obtain ⟨v, hv⟩ := Option.isSome_iff_exists.1 (contains_iff.2 hk)
      rw [hv, hentries (k, v) (get?_eq_some_iff.1 hv)]
    by_cases hk : k ∈ a.keys
    · exact hfound k hk
    · -- a key of `b` alone would make `b` longer
      have hb : k ∉ b.keys := by
        intro hb
        have hle := (List.nodup_cons.2 ⟨hk, a.nodup_keys⟩).length_le_of_subset
          (List.cons_subset.2 ⟨hb, keys_subset_of_get? hfound⟩)
        rw [List.length_cons, hsize] at hle
        exact Nat.not_succ_le_self _ hle
      rw [get?_eq_none_iff.2 hk, get?_eq_none_iff.2 hb]
  · intro h
    refine ⟨Nat.le_antisymm ?_ ?_, ?_⟩
    · exact a.nodup_keys.length_le_of_subset (keys_subset_of_get? fun k _ => h k)
    · exact b.nodup_keys.length_le_of_subset (keys_subset_of_get? fun k _ => (h k).symm)
    · intro e he
      rw [← h, get?_eq_some_iff.2 he]

/-! ## Maps built from pairs -/

theorem keys_foldl_insert (pairs : List (κ × ν)) (m : OrderedMap κ ν) :
    (pairs.foldl (fun m p => m.insert p.1 p.2) m).keys =
      m.keys ++ ((pairs.map Prod.fst).removeAll m.keys).eraseDups := by
  induction pairs generalizing m with
  | nil => simp [List.removeAll]
  | cons p rest ih =>
    rw [List.foldl_cons, ih, keys_insert]
    by_cases h : p.1 ∈ m.keys
    · simp [h, List.removeAll]
    · simp only [h, if_false, List.map_cons, List.removeAll, List.elem_eq_mem, List.mem_append, List.mem_singleton,
        List.filter_cons, decide_false, Bool.not_false, if_true, List.eraseDups_cons, List.append_assoc,
        List.singleton_append, List.filter_filter]
      refine congrArg (m.keys ++ p.1 :: List.eraseDups ·) (List.filter_congr fun x _ => ?_)
      by_cases hx : x = p.1 <;> simp [hx]

/-- the keys are the distinct keys of the pairs, in order of first occurrence -/
theorem keys_ofList (pairs : List (κ × ν)) : (ofList pairs).keys = (pairs.map Prod.fst).eraseDups := by
  rw [ofList, keys_foldl_insert, keys_empty, List.nil_append]
  rw [List.removeAll, List.filter_eq_self.2 (by simp)]

theorem entries_foldl_insert (pairs : List (κ × ν)) (m : OrderedMap κ ν)
    (h : (m.keys ++ pairs.map Prod.fst).Nodup) :
    (pairs.foldl (fun m p => m.insert p.1 p.2) m).entries = m.entries ++ pairs := by
  induction pairs generalizing m with
  | nil => simp
  | cons p rest ih =>
    have hp : p.1 ∉ m.keys := by
      rw [List.map_cons, List.nodup_append] at h
      exact fun hmem => h.2.2 _ hmem _ List.mem_cons_self rfl
    have hinsert : (m.insert p.1 p.2).entries = m.entries ++ [p] := upsert_of_notMem hp p.2
    rw [List.foldl_cons, ih, hinsert, List.append_assoc]
    · rfl
    · rw [keys_insert, if_neg hp]
      simpa using h

/-- pairs with distinct keys are the entries of the map built from them -/
theorem entries_ofList {pairs : List (κ × ν)} (h : (pairs.map Prod.fst).Nodup) : (ofList pairs).entries = pairs :=
  entries_foldl_insert pairs ∅ h

theorem lookup_append (k : κ) (as bs : List (κ × ν)) : lookup k (as ++ bs) = (lookup k as).or (lookup k bs) := by
  induction as with
  | nil => simp [lookup]
  | cons a as ih => by_cases h : a.1 = k <;> simp [lookup, h, ih]

theorem get?_foldl_insert (pairs : List (κ × ν)) (m : OrderedMap κ ν) (k : κ) :
    (pairs.foldl (fun m p => m.insert p.1 p.2) m).get? k = (lookup k pairs.reverse).or (m.get? k) := by
  induction pairs generalizing m with
  | nil => simp [lookup]
  | cons p rest ih =>
    rw [List.foldl_cons, ih, get?_insert, List.reverse_cons, lookup_append, Option.or_assoc]
    by_cases h : p.1 = k <;> simp [lookup, h]

/-- the value of a key is that of its last pair -/
theorem get?_ofList (pairs : List (κ × ν)) (k : κ) : (ofList pairs).get? k = lookup k pairs.reverse := by
  simp [ofList, get?_foldl_insert]

end OrderedMap

end ResourceQuery
