import Mathlib.Data.List.Chain
import Mathlib.Data.Nat.Notation

/-!
# Lists grown at the end

A list grows by elements that depend on what it holds so far.  What holds of
every step holds all along the list, and elements of a kind that is added only
below a limit stay within the limit.  A list grown by reading another one is a
prefix of it.
-/

namespace Growing

universe u v

variable {α : Type u} {next : List α → α → Prop} {xs : List α}

/-- The lists grown by steps. -/
inductive Grown (next : List α → α → Prop) : List α → Prop
  | nil : Grown next []
  | concat {xs : List α} {x : α} : Grown next xs → next xs x →
      Grown next (xs ++ [x])

/-- What every step establishes behind elements of which it holds, holds of
every element. -/
theorem Grown.forall {P : α → Prop} (h : Grown next xs)
    (hnext : ∀ xs x, (∀ y ∈ xs, P y) → next xs x → P x) : ∀ x ∈ xs, P x := by
  induction h with
  | nil => simp
  | concat _ hx ih =>
      intro y hy
      rcases List.mem_append.mp hy with hy | hy
      · exact ih y hy
      · exact List.mem_singleton.mp hy ▸ hnext _ _ ih hx

/-- What every step but the first establishes holds of every element but the
first. -/
theorem Grown.forall_tail {P : α → Prop} (h : Grown next xs)
    (hnext : ∀ xs x, xs ≠ [] → next xs x → P x) : ∀ x ∈ xs.tail, P x := by
  induction h with
  | nil => simp
  | @concat xs x _ hx ih =>
      intro y hy
      by_cases hne : xs = []
      · subst hne
        cases hy
      · rw [List.tail_append_of_ne_nil hne] at hy
        rcases List.mem_append.mp hy with hy | hy
        · exact ih y hy
        · exact List.mem_singleton.mp hy ▸ hnext _ _ hne hx

/-- What the first step establishes holds of the first element. -/
theorem Grown.forall_head {P : α → Prop} (h : Grown next xs)
    (hnext : ∀ x, next [] x → P x) : ∀ x ∈ xs.head?, P x := by
  induction h with
  | nil => simp
  | @concat xs x _ hx ih =>
      cases xs with
      | nil => simpa using hnext x hx
      | cons y ys => simpa using ih

/-- A relation of every new element to the one in front of it. -/
theorem Grown.isChain {R : α → α → Prop} (h : Grown next xs)
    (hnext : ∀ xs last x, next (xs ++ [last]) x → R last x) : xs.IsChain R := by
  induction h with
  | nil => exact .nil
  | @concat xs x _ hx ih =>
      rw [List.isChain_append]
      refine ⟨ih, .singleton x, ?_⟩
      intro last hlast y hy
      obtain ⟨front, rfl⟩ := List.getLast?_eq_some_iff.mp hlast
      obtain rfl : x = y := by simpa using hy
      exact hnext front last x hx

/-- When elements of a kind are added only below a limit, there are no more of
them than the limit. -/
theorem Grown.countP_le {p : α → Bool} {k : ℕ} (h : Grown next xs)
    (hnext : ∀ xs x, next xs x → p x → xs.countP p < k) : xs.countP p ≤ k := by
  induction h with
  | nil => simp
  | @concat xs x _ hx ih =>
      rw [List.countP_append]
      by_cases hp : p x
      · have hlt := hnext xs x hx hp
        simp only [List.countP_singleton, hp, if_true]
        exact hlt
      · simpa [hp] using ih

/-- A list grown by reading another one in order is the start of it. -/
theorem Grown.map_isPrefix {β : Type v} {f : α → β} {ys : List β}
    (h : Grown next xs)
    (hnext : ∀ xs x, next xs x → ys[xs.length]? = some (f x)) :
    xs.map f <+: ys := by
  induction h with
  | nil => exact List.nil_prefix
  | @concat xs x _ hx ih =>
      obtain ⟨rest, rfl⟩ := ih
      have hread := hnext xs x hx
      rw [List.getElem?_append_right (by simp), List.length_map, Nat.sub_self,
        ← List.head?_eq_getElem?] at hread
      obtain ⟨rest, rfl⟩ := List.head?_eq_some_iff.mp hread
      exact ⟨rest, by simp⟩

end Growing
