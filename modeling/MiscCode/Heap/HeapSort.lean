import MiscCode.Heap.Growth

/-!
# Sorting with a heap

`main` pushes an array and prints what it pops as long as that is not
negative.  The answer of `pop` on an empty heap ends the loop, and so does a
negative element.
-/

namespace MiscCode
namespace Heap

open PriorityQueue

variable {h : Heap} {q : Multiset ℤ} {mem : ℕ → ℤ}

/-! ## The loops of main -/

/-- `while ((ret = pop(min_heap)) >= 0)`: the values printed. -/
def printLoop : ℕ → Heap → Outcome (List ℤ)
  | 0, _ => .error .unfinished
  | fuel + 1, h => do
      let (ret, h') ← h.pop
      if ret ≥ 0 then do
        let printed ← printLoop fuel h'
        .ok (ret :: printed)
      else .ok []

/-- `main`, for an array `a`. -/
def main (mem : ℕ → ℤ) (a : List ℤ) : Outcome (List ℤ) := do
  let h ← a.foldlM push (allocHeap mem 32 minHeap)
  printLoop (h.size.toNat + 1) h

/-- The elements of `a` are printed in ascending order, each as often as it
occurs. -/
def PrintsSorted (mem : ℕ → ℤ) (a : List ℤ) : Prop :=
  ∃ printed, main mem a = .ok printed ∧ printed.Pairwise (· ≤ ·) ∧
    printed.Perm a

/-! ## Printing -/

theorem nonneg_of_printLoop {fuel : ℕ} {printed : List ℤ}
    (hprint : printLoop fuel h = .ok printed) : ∀ v ∈ printed, 0 ≤ v := by
  induction fuel generalizing h printed with
  | zero => cases hprint
  | succ fuel ih =>
      obtain ⟨⟨ret, h'⟩, -, hprint⟩ := Fuel.bind_eq_ok.mp hprint
      simp only at hprint
      split at hprint
      · rename_i hret
        obtain ⟨rest, hrest, hprint⟩ := Fuel.bind_eq_ok.mp hprint
        obtain rfl := Except.ok.inj hprint
        exact List.forall_mem_cons.mpr ⟨hret, ih hrest⟩
      · obtain rfl := Except.ok.inj hprint
        exact List.forall_mem_nil _

/-- A minimum heap without negative elements is printed in full. -/
theorem printLoop_sorts (fuel : ℕ) (hr : Represents minHeap h q)
    (hsmall : h.size ≤ 2 ^ 30) (hq : ∀ v ∈ q, 0 ≤ v)
    (hfuel : Multiset.card q < fuel) :
    ∃ printed : List ℤ, printLoop fuel h = .ok printed ∧
      printed.Pairwise (· ≤ ·) ∧ ↑printed = q := by
  induction fuel generalizing h q with
  | zero => exact absurd hfuel (Nat.not_lt_zero _)
  | succ fuel ih =>
      unfold printLoop
      cases hcard : Multiset.card q with
      | zero =>
          obtain rfl := Multiset.card_eq_zero.mp hcard
          rw [pop_empty hr, outcome_bind]
          exact ⟨[], rfl, .nil, rfl⟩
      | succ n =>
          obtain ⟨h', hpop, hr'⟩ := pop_takes_first hr hsmall hcard
          have hfirst := hr.isFirst hcard
          have hsize := hr.allocated.size_eq
          have hsize' := hr'.allocated.size_eq
          have hless : Multiset.card (q.erase (h.cell 0)) = n := by
            rw [Multiset.card_erase_of_mem hfirst.1, hcard]
            rfl
          obtain ⟨printed, hrest, hsorted, hprinted⟩ :=
            ih hr' (by omega) (fun v hv => hq v (Multiset.mem_of_mem_erase hv))
              (by omega)
          refine ⟨h.cell 0 :: printed, ?_, ?_, ?_⟩
          · rw [hpop, outcome_bind]
            simp only
            rw [if_pos (hq _ hfirst.1), hrest]
            rfl
          · refine .cons (fun v hv => ?_) hsorted
            have hv' : v ∈ q.erase (h.cell 0) := by
              rw [← hprinted]
              exact hv
            exact hfirst.2 v (Multiset.mem_of_mem_erase hv')
          · rw [← Multiset.cons_coe, hprinted, Multiset.cons_erase hfirst.1]

/-! ## Filling the heap -/

theorem foldlM_push {outs : List (Option ℤ)} {vs : List ℤ} {h' : Heap}
    (hrun : Calls.run call h (vs.map .push) = .ok (outs, h')) :
    vs.foldlM push h = .ok h' := by
  induction vs generalizing h outs with
  | nil =>
      obtain ⟨-, rfl⟩ := Prod.mk.inj (Except.ok.inj hrun)
      rfl
  | cons v vs ih =>
      obtain ⟨o, outs', g, hcall, hrest, -⟩ := Calls.run_cons_inv hrun
      obtain ⟨g', hpush, hg⟩ := Fuel.bind_eq_ok.mp hcall
      obtain ⟨-, rfl⟩ := Prod.mk.inj (Except.ok.inj hg)
      rw [List.foldlM_cons, hpush]
      exact ih hrest

/-- An array that fits the largest block. -/
theorem fill_represents (mem : ℕ → ℤ) {a : List ℤ} (hlen : a.length ≤ 2 ^ 30) :
    ∃ h, a.foldlM push (allocHeap mem 32 minHeap) = .ok h ∧
      Represents minHeap h ↑a ∧ Doubled 32 25 h := by
  have hlast : (32 : ℤ) * 2 ^ 25 = 2 ^ 30 := by decide
  obtain ⟨outs, h, hrun, hr, hd⟩ := runCalls_pushes mem minHeap a (J := 25)
    (show (1 : ℤ) ≤ 32 by decide) (by decide) (by omega)
  exact ⟨h, foldlM_push hrun, hr, hd⟩

/-- The block cannot grow beyond `2 ^ 30` cells. -/
theorem fill_overflows (mem : ℕ → ℤ) {a : List ℤ} (hlen : 2 ^ 30 < a.length) :
    a.foldlM push (allocHeap mem 32 minHeap) = .error .overflow := by
  have htake : (a.take (2 ^ 30)).length = 2 ^ 30 := by
    rw [List.length_take]
    omega
  obtain ⟨h, hfill, hr, hd⟩ := fill_represents mem htake.le
  have hsize := hr.allocated.size_eq
  rw [Multiset.coe_card, htake] at hsize
  have hfull := makeRoom_overflow hd (by decide) (by decide) (by omega)
    hr.allocated.size_le
  obtain ⟨v, rest, hrest⟩ : ∃ v rest, a.drop (2 ^ 30) = v :: rest := by
    apply List.exists_cons_of_ne_nil
    intro hnil
    have hdrop := congrArg List.length hnil
    rw [List.length_drop, List.length_nil] at hdrop
    omega
  have hpush : h.push v = .error .overflow := by
    unfold push
    rw [hfull]
    rfl
  rw [← List.take_append_drop (2 ^ 30) a, List.foldlM_append, hfill, hrest,
    outcome_bind, List.foldlM_cons, hpush]
  rfl

/-! ## Sorting -/

/-- `main` sorts exactly the arrays without negative elements that fit the
largest block. -/
theorem printsSorted_iff (mem : ℕ → ℤ) (a : List ℤ) :
    PrintsSorted mem a ↔ (∀ v ∈ a, 0 ≤ v) ∧ a.length ≤ 2 ^ 30 := by
  constructor
  · rintro ⟨printed, hmain, -, hperm⟩
    obtain ⟨h, hfill, hprint⟩ := Fuel.bind_eq_ok.mp hmain
    constructor
    · intro v hv
      exact nonneg_of_printLoop hprint v (hperm.mem_iff.mpr hv)
    · by_contra hlong
      rw [fill_overflows mem (not_le.mp hlong)] at hfill
      cases hfill
  · rintro ⟨hpos, hlen⟩
    obtain ⟨h, hfill, hr, -⟩ := fill_represents mem hlen
    have hsize := hr.allocated.size_eq
    rw [Multiset.coe_card] at hsize
    obtain ⟨printed, hprint, hsorted, hprinted⟩ :=
      printLoop_sorts (h.size.toNat + 1) hr (by omega) hpos
        (by rw [Multiset.coe_card]; omega)
    refine ⟨printed, ?_, hsorted, Multiset.coe_eq_coe.mp hprinted⟩
    unfold main
    rw [hfill, outcome_bind, hprint]

/-- `-1` is taken for the end of the heap. -/
theorem negative_element_not_printed :
    ¬ ∀ (mem : ℕ → ℤ) (a : List ℤ), PrintsSorted mem a := by
  intro h
  obtain ⟨printed, hmain, -, hperm⟩ := h (fun _ => 0) [3, -1]
  have hnone : main (fun _ => 0) [3, -1] = .ok [] := by decide +kernel
  rw [hnone] at hmain
  obtain rfl := Except.ok.inj hmain
  exact absurd hperm.length_eq (by decide)

end Heap
end MiscCode
