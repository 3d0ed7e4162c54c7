import Mathlib.Data.List.Forall2
import Mathlib.Data.List.Nodup
import Mathlib.Data.Nat.Notation

/-!
# Loops over indices

A loop goes through a list of indices, handles those it does not skip and pushes
what it gets for each of them.  What holds of every single result holds of the
results in the order of the indices, so two loops over the same indices can be
compared element by element.
-/

namespace Visits

universe u v w x

variable {ι : Type u} {σ : Type v} {α : Type w} {β : Type x}

/-- The loop: an index for which nothing is found ends it. -/
def visit (p : ι → Prop) [DecidablePred p] (body : ι → Option α)
    (push : σ → α → σ) : List ι → σ → Option σ
  | [], s => some s
  | i :: is, s =>
      if p i then
        match body i with
        | some a => visit p body push is (push s a)
        | none => none
      else visit p body push is s

/-- When every index that is not skipped has a result, the loop pushes these
results in turn. -/
theorem visit_eq_some {p : ι → Prop} [DecidablePred p] {body : ι → Option α}
    {R : ι → α → Prop} {is : List ι} (push : σ → α → σ) (s : σ)
    (h : ∀ i ∈ is, p i → ∃ a, body i = some a ∧ R i a) :
    ∃ as, visit p body push is s = some (as.foldl push s) ∧
      List.Forall₂ R (is.filter p) as := by
  induction is generalizing s with
  | nil => exact ⟨[], rfl, .nil⟩
  | cons i is ih =>
      have hrest : ∀ j ∈ is, p j → ∃ a, body j = some a ∧ R j a :=
        fun j hj => h j (List.mem_cons_of_mem i hj)
      by_cases hp : p i
      · obtain ⟨a, ha, hR⟩ := h i List.mem_cons_self hp
        obtain ⟨as, has, hall⟩ := ih (push s a) hrest
        have hfilter : (i :: is).filter (fun j => decide (p j)) =
            i :: is.filter fun j => decide (p j) := by simp [hp]
        refine ⟨a :: as, ?_, ?_⟩
        · rw [visit, if_pos hp, ha]
          exact has
        · rw [hfilter]
          exact .cons hR hall
      · obtain ⟨as, has, hall⟩ := ih s hrest
        have hfilter : (i :: is).filter (fun j => decide (p j)) =
            is.filter fun j => decide (p j) := by simp [hp]
        refine ⟨as, ?_, ?_⟩
        · rw [visit, if_neg hp]
          exact has
        · rw [hfilter]
          exact hall

/-- Pushing at the end of a list. -/
theorem foldl_append_singleton (xs as : List α) :
    as.foldl (fun xs a => xs ++ [a]) xs = xs ++ as := by
  induction as generalizing xs with
  | nil => exact (List.append_nil xs).symm
  | cons a as ih =>
      rw [List.foldl_cons, ih, List.append_assoc]
      rfl

/-- Two lists of results for the same indices, element by element. -/
theorem forall₂_join {R : ι → α → Prop} {S : ι → β → Prop} {is : List ι}
    {as : List α} {bs : List β} (hR : List.Forall₂ R is as)
    (hS : List.Forall₂ S is bs) :
    List.Forall₂ (fun a b => ∃ i ∈ is, R i a ∧ S i b) as bs := by
  induction hR generalizing bs with
  | nil =>
      cases hS
      exact .nil
  | @cons i a is as hi _ ih =>
      cases hS with
      | @cons _ b _ bs hi' hrest =>
          refine .cons ⟨i, List.mem_cons_self, hi, hi'⟩ ?_
          refine (ih hrest).imp ?_
          rintro a b ⟨j, hj, hRj, hSj⟩
          exact ⟨j, List.mem_cons_of_mem i hj, hRj, hSj⟩

/-- The results are as many as the indices, and what they say of their index is
the list of the indices. -/
theorem forall₂_map {R : ι → α → Prop} {f : α → β} {g : ι → β} {is : List ι}
    {as : List α} (hR : List.Forall₂ R is as) (h : ∀ i a, R i a → f a = g i) :
    as.map f = is.map g := by
  induction hR with
  | nil => rfl
  | cons hi _ ih => rw [List.map_cons, List.map_cons, h _ _ hi, ih]

/-- The results of a loop over all elements of a list, each handled with its
index. -/
theorem eq_mapIdx {xs : List α} {f : ℕ → α → β} {bs : List β}
    (h : List.Forall₂ (fun i b => ∃ x, xs[i]? = some x ∧ b = f i x)
      (List.range xs.length) bs) : bs = xs.mapIdx f := by
  have hbs : bs.map some =
      (List.range xs.length).map fun i => xs[i]?.map (f i) := by
    apply forall₂_map h
    rintro i b ⟨x, hx, rfl⟩
    rw [hx]
    rfl
  have hxs : (xs.mapIdx f).map some =
      (List.range xs.length).map fun i => xs[i]?.map (f i) := by
    apply List.ext_getElem
    · simp
    · intro i hi _
      have hlt : i < xs.length := by simpa using hi
      simp [hlt]
  exact List.map_injective_iff.mpr (fun _ _ => Option.some.inj)
    (hbs.trans hxs.symm)

/-! ## One index first -/

/-- One index, if there is one, and then the others in their order. -/
def headFirst [DecidableEq ι] (head : Option ι) (is : List ι) : List ι :=
  head.toList ++ is.filter fun i => some i ≠ head

/-- No index is lost or repeated. -/
theorem headFirst_perm [DecidableEq ι] {head : Option ι} {is : List ι}
    (hnodup : is.Nodup) (hhead : ∀ i ∈ head, i ∈ is) :
    (headFirst head is).Perm is := by
  cases head with
  | none =>
      have hall : is.filter (fun i => decide (some i ≠ none)) = is :=
        List.filter_eq_self.mpr fun i _ => by simp
      rw [headFirst, hall]
      exact .refl _
  | some i =>
      have herase : is.filter (fun j => decide (some j ≠ some i)) = is.erase i := by
        rw [hnodup.erase_eq_filter]
        congr 1
        funext j
        by_cases hj : j = i
        · simp [hj]
        · simp [hj]
      rw [headFirst, herase]
      exact (List.perm_cons_erase (hhead i rfl)).symm

end Visits
