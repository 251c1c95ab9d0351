/-
First occurrences.

A list without its repeats keeps each element where it stands first. So what is put at its end is added if it is new,
and an element taken from one list by a function stands where the first element that gives it does.

Results:
- `eraseDups_concat`: one more element at the end.
- `pairwise_eraseDups_filterMap`: values without repeats come in the order of the first element that has each.
- `eraseDups_filter`: it is the same to leave out repeats first, or elements that are not wanted.
-/
import Mathlib.Data.List.Induction
import Mathlib.Data.List.Nodup

namespace ResourceQuery

theorem eraseDups_concat {α : Type} [DecidableEq α] (xs : List α) (x : α) :
    (xs ++ [x]).eraseDups = if x ∈ xs then xs.eraseDups else xs.eraseDups ++ [x] := by
  rw [List.eraseDups_append]
  split_ifs with h
  · simp [List.removeAll, h]
  · simp [List.removeAll, h, List.eraseDups_cons]

/-- a repeated element changes nothing about the first occurrences -/
theorem eraseDups_append_cons_of_mem {α : Type} [DecidableEq α] {xs : List α} {x : α} (h : x ∈ xs) (ys : List α) :
    (xs ++ x :: ys).eraseDups = (xs ++ ys).eraseDups := by
  rw [List.eraseDups_append, List.eraseDups_append]
  simp [List.removeAll, h]

theorem eraseDups_of_nodup {α : Type} [DecidableEq α] {xs : List α} (h : xs.Nodup) : xs.eraseDups = xs := by
  induction xs with
  | nil => rfl
  | cons x xs ih =>
    obtain ⟨hx, hxs⟩ := List.nodup_cons.1 h
    have hfilter : xs.filter (fun y => !y == x) = xs := by
      refine List.filter_eq_self.2 ?_
      intro y hy
      have hne : y ≠ x := fun e => hx (e ▸ hy)
      simpa using hne
    rw [List.eraseDups_cons, hfilter, ih hxs]

theorem eraseDups_filter {α : Type} [DecidableEq α] (p : α → Bool) (xs : List α) :
    (xs.filter p).eraseDups = xs.eraseDups.filter p := by
  induction xs using List.reverseRecOn with
  | nil => rfl
  | append_singleton xs x ih =>
    rw [List.filter_append, eraseDups_concat]
    cases hx : p x with
    | false =>
      rw [List.filter_cons_of_neg (by simp [hx]), List.filter_nil, List.append_nil, ih]
      split_ifs
      · rfl
      · rw [List.filter_append, List.filter_cons_of_neg (by simp [hx]), List.filter_nil, List.append_nil]
    | true =>
      have hmem : x ∈ xs.filter p ↔ x ∈ xs := by simp [List.mem_filter, hx]
      rw [List.filter_cons_of_pos hx, List.filter_nil, eraseDups_concat, ih]
      simp only [hmem]
      split_ifs
      · rfl
      · rw [List.filter_append, List.filter_cons_of_pos hx, List.filter_nil]

theorem filterMap_concat_none {α β : Type} {f : α → Option β} {x : α} (xs : List α) (h : f x = none) :
    (xs ++ [x]).filterMap f = xs.filterMap f := by
  simp [h]

theorem filterMap_concat_some {α β : Type} {f : α → Option β} {x : α} {v : β} (xs : List α) (h : f x = some v) :
    (xs ++ [x]).filterMap f = xs.filterMap f ++ [v] := by
  simp [h]

/-- Values without repeats come in the order of the first element that has each. -/
theorem pairwise_eraseDups_filterMap {α β : Type} [DecidableEq β] (f : α → Option β) (xs : List α) :
    (xs.filterMap f).eraseDups.Pairwise fun a b => xs.findIdx (f · = some a) < xs.findIdx (f · = some b) := by
  induction xs using List.reverseRecOn with
  | nil => simp
  | append_singleton xs x ih =>
    -- a value that an earlier element has keeps its place
    have old : ∀ a ∈ xs.filterMap f,
        (xs ++ [x]).findIdx (f · = some a) = xs.findIdx (f · = some a) ∧ xs.findIdx (f · = some a) < xs.length := by
      intro a ha
      obtain ⟨y, hy, hya⟩ := List.mem_filterMap.1 ha
      have hlt : xs.findIdx (f · = some a) < xs.length := List.findIdx_lt_length_of_exists ⟨y, hy, by simpa using hya⟩
      exact ⟨by rw [List.findIdx_append, if_pos hlt], hlt⟩
    have kept : (xs.filterMap f).eraseDups.Pairwise
        fun a b => (xs ++ [x]).findIdx (f · = some a) < (xs ++ [x]).findIdx (f · = some b) := by
      refine ih.imp_of_mem ?_
      intro a b ha hb hlt
      rw [(old a (List.mem_eraseDups.1 ha)).1, (old b (List.mem_eraseDups.1 hb)).1]
      exact hlt
    cases hx : f x with
    | none => rw [filterMap_concat_none xs hx]; exact kept
    | some v =>
      rw [filterMap_concat_some xs hx, eraseDups_concat]
      split_ifs with hv
      · exact kept
      · have hno : ¬ xs.findIdx (f · = some v) < xs.length := by
          intro hlt
          obtain ⟨y, hy, hyv⟩ := List.findIdx_lt_length.1 hlt
          exact hv (List.mem_filterMap.2 ⟨y, hy, by simpa using hyv⟩)
        have hnew : (xs ++ [x]).findIdx (f · = some v) = xs.length := by
          rw [List.findIdx_append, if_neg hno]
          simp [hx]
        refine List.pairwise_append.2 ⟨kept, by simp, ?_⟩
        intro a ha b hb
        have hab := old a (List.mem_eraseDups.1 ha)
        rw [List.mem_singleton.1 hb, hnew, hab.1]
        exact hab.2

theorem nodup_eraseDups {α : Type} [DecidableEq α] (xs : List α) : xs.eraseDups.Nodup := by
  have hord := pairwise_eraseDups_filterMap some xs
  rw [List.filterMap_some] at hord
  refine hord.imp ?_
  rintro a b hlt rfl
  exact Nat.lt_irrefl _ hlt

end ResourceQuery
