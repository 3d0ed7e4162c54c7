import MiscCode.Heap.Queue

/-!
# What the heap promises its callers

Whatever the type, the first capacity and the sequence of calls, as long as
the number of cells in use stays below `2 ^ 30`: no call faults, the cells stay
in heap order, no element is lost or invented, and removals come in order.
-/

namespace MiscCode
namespace Heap

open HeapOrder PriorityQueue Calls

variable {type : ℤ} {h : Heap} {q : Multiset ℤ}

/-! ## Sequences with few pushes -/

theorem card_after_call {c : Call ℤ} {o : Option ℤ} {q' : Multiset ℤ}
    (hs : Serves (Above type) (-1) q c o q') (cs : List (Call ℤ)) :
    Multiset.card q' + Multiset.card (pushed cs) ≤
      Multiset.card q + Multiset.card (pushed (c :: cs)) := by
  cases hs with
  | push _ v =>
      simp only [pushed, Multiset.card_cons]
      omega
  | @pop _ x hfirst =>
      have hcard := Multiset.card_erase_le (a := x) (s := q)
      simp only [pushed]
      omega
  | idle => simp only [pushed, le_refl]

/-- The heap stays small when few elements are pushed. -/
theorem throughout_of_card_pushed {cs : List (Call ℤ)}
    (hr : Represents type h q)
    (hcard : Multiset.card q + Multiset.card (pushed cs) < 2 ^ 30) :
    Throughout call (fun h => h.size < 2 ^ 30) h cs := by
  have hsmall : h.size < 2 ^ 30 := by
    rw [hr.allocated.size_eq]
    omega
  induction cs generalizing h q with
  | nil => exact .nil hsmall
  | cons c cs ih =>
      obtain ⟨o, h', q', hcall, hserve, hr'⟩ := call_serves c hr hsmall
      have hcard' := card_after_call hserve cs
      refine .cons hsmall fun o₁ h₁ hcall₁ => ?_
      rw [hcall] at hcall₁
      obtain ⟨-, rfl⟩ := Prod.mk.inj (Except.ok.inj hcall₁)
      apply ih hr' (by omega)
      rw [hr'.allocated.size_eq]
      omega

theorem staysSmall_of_card_pushed {mem : ℕ → ℤ} {capacity : ℤ}
    {calls : List (Call ℤ)} (hcap : 1 ≤ capacity)
    (hcard : Multiset.card (pushed calls) < 2 ^ 30) :
    StaysSmall mem capacity type calls := by
  apply throughout_of_card_pushed (allocHeap_represents mem type hcap)
  rw [Multiset.card_zero, Nat.zero_add]
  exact hcard

/-! ## Order, bounds and contents -/

theorem Represents.heapOrdered (hr : Represents type h q) : h.HeapOrdered := by
  intro i hi hsize
  rw [hr.allocated.size_eq] at hsize
  unfold getParentIdx
  rw [tdiv_pred_two hi, Int.toNat_natCast, heapCond_eq_false_iff, hr.type_eq]
  exact hr.ordered hi (Int.ofNat_lt.mp hsize)

/-- After each call of a sequence the elements are in heap order, they fit the
block, and they are those pushed and not yet popped.  That the calls return
means that no access left the block, whose cells number `capacity`. -/
theorem calls_keep_heap (mem : ℕ → ℤ) (capacity type : ℤ)
    (calls pre : List (Call ℤ)) (hcap : 1 ≤ capacity)
    (hsmall : StaysSmall mem capacity type calls) (hpre : pre <+: calls) :
    ∃ outs h, runCalls mem capacity type pre = .ok (outs, h) ∧
      h.HeapOrdered ∧ h.size ≤ h.capacity ∧
      (h.arr.length : ℤ) = h.capacity ∧
      popped 0 pre outs ≤ pushed pre ∧
      h.elements = pushed pre - popped 0 pre outs := by
  obtain ⟨outs, h, q, hrun, hfollows, hr⟩ :=
    runCalls_follows hcap (hsmall.mono hpre)
  have hbalance : q + popped 0 pre outs = pushed pre := by
    have hsum := follows_balance hfollows
    rw [Multiset.card_zero, Multiset.zero_add] at hsum
    exact hsum
  refine ⟨outs, h, hrun, hr.heapOrdered, hr.allocated.size_le,
    hr.allocated.arr_length, ?_, ?_⟩
  · rw [← hbalance]
    exact Multiset.le_add_left _ _
  · rw [hr.elements_eq, ← hbalance, Multiset.add_sub_cancel_right]

theorem calls_keep_heap_three :
    ∃ outs h, runCalls (fun _ => 9) 1 maxHeap [.push 3, .push 5, .pop] =
        .ok (outs, h) ∧
      h.HeapOrdered ∧ h.size ≤ h.capacity ∧
      (h.arr.length : ℤ) = h.capacity ∧
      popped 0 [.push 3, .push 5, .pop] outs ≤
        pushed [.push 3, .push 5, .pop] ∧
      h.elements = pushed [.push 3, .push 5, .pop] -
        popped 0 [.push 3, .push 5, .pop] outs :=
  calls_keep_heap (fun _ => 9) 1 maxHeap [.push 3, .push 5, .pop]
    [.push 3, .push 5, .pop] (by decide)
    (staysSmall_of_card_pushed (by decide) (by decide)) List.prefix_rfl

/-! ## The priority queue -/

/-- A heap answers as a priority queue of its elements does, for every
interleaving of calls: a removal takes out one occurrence of the least element
of a `MIN_HEAP` and of the greatest one of any other heap, and answers `-1` and
changes nothing on an empty heap.  So values pushed and then popped come back
sorted. -/
theorem heap_refines_queue (mem : ℕ → ℤ) (capacity type : ℤ)
    (hcap : 1 ≤ capacity) :
    (∀ calls, StaysSmall mem capacity type calls →
      ∃ outs h, runCalls mem capacity type calls = .ok (outs, h) ∧
        Follows (Serves (Above type) (-1)) 0 calls outs h.elements ∧
        (h.elements = 0 → h.pop = .ok (-1, h)) ∧
        (h.elements ≠ 0 → ∃ x h', h.pop = .ok (x, h') ∧
          IsFirst (Above type) h.elements x ∧
          h'.elements = h.elements.erase x)) ∧
    ∀ vs : List ℤ, vs.length < 2 ^ 30 →
      ∃ (xs : List ℤ) (h : Heap), runCalls mem capacity type
          (vs.map .push ++ List.replicate vs.length .pop) =
            .ok (List.replicate vs.length none ++ xs.map some, h) ∧
        xs.Pairwise (Above type) ∧ xs.Perm vs := by
  constructor
  · intro calls hsmall
    obtain ⟨outs, h, q, hrun, hfollows, hr⟩ := runCalls_follows hcap hsmall
    have hsize : h.size < 2 ^ 30 :=
      hsmall calls outs h List.prefix_rfl hrun
    rw [← hr.elements_eq] at hfollows hr
    refine ⟨outs, h, hrun, hfollows, ?_, ?_⟩
    · intro hempty
      rw [hempty] at hr
      exact pop_empty hr
    · intro hne
      obtain ⟨n, hn⟩ := Nat.exists_eq_succ_of_ne_zero
        (fun h0 => hne (Multiset.card_eq_zero.mp h0))
      obtain ⟨h', hpop, hr'⟩ := pop_represents hr hsize hn
      exact ⟨h.cell 0, h', hpop, hr.isFirst hn, hr'.elements_eq⟩
  · intro vs hvs
    have hsmall : StaysSmall mem capacity type
        (vs.map .push ++ List.replicate vs.length .pop) := by
      apply staysSmall_of_card_pushed hcap
      rw [pushed_pushes, pushed_pops, Multiset.add_zero, Multiset.coe_card]
      exact hvs
    obtain ⟨outs, h, q, hrun, hfollows, -⟩ := runCalls_follows hcap hsmall
    obtain ⟨-, xs, rfl, hsorted, hperm⟩ := follows_sorts hfollows
    exact ⟨xs, h, hrun, hsorted, hperm⟩

theorem heap_refines_queue_three :
    (∃ outs h, runCalls (fun _ => 0) 1 minHeap [.push 3, .push 1] =
        .ok (outs, h) ∧
      Follows (Serves (Above minHeap) (-1)) 0 [.push 3, .push 1] outs
        h.elements ∧
      (h.elements = 0 → h.pop = .ok (-1, h)) ∧
      (h.elements ≠ 0 → ∃ x h', h.pop = .ok (x, h') ∧
        IsFirst (Above minHeap) h.elements x ∧
        h'.elements = h.elements.erase x)) ∧
    ∃ (xs : List ℤ) (h : Heap), runCalls (fun _ => 0) 1 minHeap
        ([3, 1, 2].map .push ++ List.replicate 3 .pop) =
          .ok (List.replicate 3 none ++ xs.map some, h) ∧
      xs.Pairwise (Above minHeap) ∧ xs.Perm [3, 1, 2] :=
  ⟨(heap_refines_queue (fun _ => 0) 1 minHeap (by decide)).1
      [.push 3, .push 1]
      (staysSmall_of_card_pushed (by decide) (by decide)),
    (heap_refines_queue (fun _ => 0) 1 minHeap (by decide)).2 [3, 1, 2]
      (by decide)⟩

end Heap
end MiscCode
