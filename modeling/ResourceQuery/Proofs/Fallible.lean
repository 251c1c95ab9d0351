/-
Computations that may fail.

What is put together from steps succeeds exactly if its steps do, one after the other, and fails where the first of them
fails. What a failed step reports may be put in other words, which changes nothing about success.

Results:
- `except_bind_eq_ok`, `except_bind_eq_error`: the two outcomes of a step and what follows it.
- `mapError_eq_ok`, `mapError_eq_error`: the two outcomes of a step whose errors are put in other words.
- `foldlM_eq_error`: a checked pass over a list fails at one element, with all elements before it passed.
-/
import Mathlib.Data.List.Forall2

namespace ResourceQuery

/-! ## Steps -/

theorem except_bind_eq_ok {ε α β : Type} {x : Except ε α} {f : α → Except ε β} {b : β} :
    x >>= f = .ok b ↔ ∃ a, x = .ok a ∧ f a = .ok b := by
  cases x with
  | error e => simp [bind, Except.bind]
  | ok a => simp [bind, Except.bind]

theorem except_bind_eq_error {ε α β : Type} {x : Except ε α} {f : α → Except ε β} {e : ε} :
    x >>= f = .error e ↔ x = .error e ∨ ∃ a, x = .ok a ∧ f a = .error e := by
  cases x with
  | error e => simp [bind, Except.bind]
  | ok a => simp [bind, Except.bind]

theorem mapError_eq_ok {ε ε' α : Type} {x : Except ε α} {f : ε → ε'} {a : α} : x.mapError f = .ok a ↔ x = .ok a := by
  cases x <;> simp [Except.mapError]

theorem mapError_eq_error {ε ε' α : Type} {x : Except ε α} {f : ε → ε'} {e : ε'} :
    x.mapError f = .error e ↔ ∃ c, x = .error c ∧ e = f c := by
  cases x <;> simp [Except.mapError, eq_comm]

theorem map_eq_ok {ε α β : Type} {x : Except ε α} {g : α → β} {b : β} (h : x.map g = .ok b) : ∃ a, x = .ok a := by
  cases x with
  | error e => cases h
  | ok a => exact ⟨a, rfl⟩

/-! ## Passes over lists -/

/-- a checked pass fails at one element, after all elements before it have passed -/
theorem foldlM_eq_error {ε α β : Type} {f : β → α → Except ε β} {xs : List α} {b : β} {e : ε}
    (h : xs.foldlM f b = .error e) :
    ∃ before x after b', xs = before ++ x :: after ∧ before.foldlM f b = .ok b' ∧ f b' x = .error e := by
  induction xs generalizing b with
  | nil => cases h
  | cons x xs ih =>
    rcases except_bind_eq_error.1 h with h | ⟨b₁, h₁, h⟩
    · exact ⟨[], x, xs, b, rfl, rfl, h⟩
    · obtain ⟨before, y, after, b', rfl, hbefore, hy⟩ := ih h
      exact ⟨x :: before, y, after, b', rfl, except_bind_eq_ok.2 ⟨b₁, h₁, hbefore⟩, hy⟩

theorem foldlM_congr_of_mem {ε α β : Type} {f g : β → α → Except ε β} {xs : List α}
    (h : ∀ x ∈ xs, ∀ b, f b x = g b x) (b : β) : xs.foldlM f b = xs.foldlM g b := by
  induction xs generalizing b with
  | nil => rfl
  | cons x xs ih =>
    rw [List.foldlM_cons, List.foldlM_cons, h x List.mem_cons_self]
    exact bind_congr (ih fun y hy => h y (List.mem_cons_of_mem _ hy))

theorem mapM_eq_ok {ε α β : Type} {f : β → Except ε α} {xs : List α} {ys : List β}
    (h : List.Forall₂ (fun x y => f y = .ok x) xs ys) : ys.mapM f = .ok xs := by
  induction h with
  | nil => rfl
  | cons hxy _ ih =>
    rw [List.mapM_cons, hxy, ih]
    rfl

end ResourceQuery
