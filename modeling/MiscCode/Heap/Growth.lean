import MiscCode.Heap.Queue
import MiscCode.Support.Fuel
import Mathlib.Algebra.Order.Ring.Int

/-!
# Room for the elements pushed

A block grows by doubling, from a first capacity that `alloc_heap` does not
check.  Pushes find room in it up to the largest doubled capacity that is an
`int`, and a capacity of zero stays zero however often it is doubled.
-/

namespace MiscCode
namespace Heap

open PriorityQueue

variable {type capacity : ℤ} {h : Heap} {q : Multiset ℤ} {mem : ℕ → ℤ}

/-- Every push of a sequence finds the earlier elements in their places and a
free cell for its value. -/
def StoresInRoom (mem : ℕ → ℤ) (capacity type : ℤ) (vs : List ℤ) : Prop :=
  ∀ pre v, pre ++ [v] <+: vs →
    ∃ outs h g, runCalls mem capacity type (pre.map .push) = .ok (outs, h) ∧
      h.makeRoom = .ok g ∧ g.size = h.size ∧ g.size < g.capacity ∧
      (g.arr.length : ℤ) = g.capacity ∧
      ∀ k : ℕ, k < h.size → g.cell k = h.cell k

/-- The capacity is the first one doubled at most `J` times. -/
def Doubled (capacity : ℤ) (J : ℕ) (h : Heap) : Prop :=
  ∃ j ≤ J, h.capacity = capacity * 2 ^ j

theorem doubled_le {i j : ℕ} (hcap : 0 ≤ capacity) (hij : i ≤ j) :
    capacity * 2 ^ i ≤ capacity * 2 ^ j :=
  mul_le_mul_of_nonneg_left (pow_le_pow_right₀ (by decide) hij) hcap

/-- A full block below the last doubling can be doubled once more. -/
theorem Doubled.roomFor {J : ℕ} (hd : Doubled capacity J h)
    (hcap : 0 ≤ capacity) (hroom : h.size < capacity * 2 ^ J) :
    h.roomFor ≤ capacity * 2 ^ J ∧ ∃ j ≤ J, h.roomFor = capacity * 2 ^ j := by
  obtain ⟨j, hj, hcapacity⟩ := hd
  unfold Heap.roomFor
  by_cases hfull : h.size = h.capacity
  · have hne : j ≠ J := by
      rintro rfl
      omega
    have hnext : h.capacity * 2 = capacity * 2 ^ (j + 1) := by
      rw [hcapacity, pow_succ, mul_assoc]
    rw [if_pos hfull, hnext]
    exact ⟨doubled_le hcap (by omega), j + 1, by omega, rfl⟩
  · rw [if_neg hfull]
    refine ⟨?_, j, hj, hcapacity⟩
    rw [hcapacity]
    exact doubled_le hcap hj

theorem Doubled.double_lt {J : ℕ} (hd : Doubled capacity J h)
    (hcap : 0 ≤ capacity) (hint : capacity * 2 ^ J < 2 ^ 31)
    (hroom : h.size < capacity * 2 ^ J) (hfull : h.size = h.capacity) :
    h.capacity * 2 < 2 ^ 31 := by
  have hbound := (hd.roomFor hcap hroom).1
  unfold Heap.roomFor at hbound
  rw [if_pos hfull] at hbound
  omega

/-- A push below the last doubling. -/
theorem push_within {J : ℕ} (hr : Represents type h q)
    (hd : Doubled capacity J h) (hcap : 1 ≤ capacity)
    (hint : capacity * 2 ^ J < 2 ^ 31) (hroom : h.size < capacity * 2 ^ J)
    (v : ℤ) :
    ∃ h', h.push v = .ok h' ∧ Represents type h' (v ::ₘ q) ∧
      Doubled capacity J h' := by
  have hdouble := hd.double_lt (by omega) hint hroom
  obtain ⟨-, j, hj, hgrown⟩ := hd.roomFor (by omega) hroom
  obtain ⟨h', hpush, hr', hcapacity⟩ := push_grows hr hdouble (by omega) v
  exact ⟨h', hpush, hr', j, hj, hcapacity.trans hgrown⟩

/-- Pushes up to the last doubling. -/
theorem pushes_within {J : ℕ} {vs : List ℤ} (hr : Represents type h q)
    (hd : Doubled capacity J h) (hcap : 1 ≤ capacity)
    (hint : capacity * 2 ^ J < 2 ^ 31)
    (hroom : h.size + vs.length ≤ capacity * 2 ^ J) :
    ∃ outs h', Calls.run call h (vs.map .push) = .ok (outs, h') ∧
      Represents type h' (q + ↑vs) ∧ Doubled capacity J h' := by
  induction vs generalizing h q with
  | nil =>
      refine ⟨[], h, rfl, ?_, hd⟩
      rw [Multiset.coe_nil, Multiset.add_zero]
      exact hr
  | cons v vs ih =>
      rw [List.length_cons] at hroom
      obtain ⟨h', hpush, hr', hd'⟩ :=
        push_within hr hd hcap hint (by omega) v
      have hsize := hr.allocated.size_eq
      have hsize' := hr'.allocated.size_eq
      rw [Multiset.card_cons] at hsize'
      obtain ⟨outs, h'', hrun, hr'', hd''⟩ := ih hr' hd' (by omega)
      refine ⟨none :: outs, h'', ?_, ?_, hd''⟩
      · have hcall : call h (.push v) = .ok (none, h') := by
          simp only [call, hpush, outcome_bind]
        exact Calls.run_cons hcall hrun
      · rw [← Multiset.cons_coe, Multiset.add_cons, ← Multiset.cons_add]
        exact hr''

/-- Pushes into a new heap. -/
theorem runCalls_pushes (mem : ℕ → ℤ) (type : ℤ) (vs : List ℤ) {J : ℕ}
    (hcap : 1 ≤ capacity) (hint : capacity * 2 ^ J < 2 ^ 31)
    (hroom : (vs.length : ℤ) ≤ capacity * 2 ^ J) :
    ∃ outs h, runCalls mem capacity type (vs.map .push) = .ok (outs, h) ∧
      Represents type h ↑vs ∧ Doubled capacity J h := by
  have hnew : Doubled capacity J (allocHeap mem capacity type) :=
    ⟨0, Nat.zero_le J, by rw [pow_zero, mul_one]; rfl⟩
  have hfits : (allocHeap mem capacity type).size + vs.length ≤
      capacity * 2 ^ J := by
    have hempty : (allocHeap mem capacity type).size = 0 := rfl
    omega
  obtain ⟨outs, h, hrun, hr, hd⟩ := pushes_within
    (allocHeap_represents mem type hcap) hnew hcap hint hfits
  rw [Multiset.zero_add] at hr
  exact ⟨outs, h, hrun, hr, hd⟩

/-! ## The exact condition -/

/-- The largest doubled capacity that is an `int`. -/
theorem exists_last_doubling (hcap : 1 ≤ capacity) (hint : capacity < 2 ^ 31) :
    ∃ J : ℕ, capacity * 2 ^ J < 2 ^ 31 ∧
      2 ^ 31 ≤ capacity * 2 ^ (J + 1) := by
  have hsome : ∃ J : ℕ, 2 ^ 31 ≤ capacity * 2 ^ (J + 1) := ⟨31, by omega⟩
  refine ⟨Nat.find hsome, ?_, Nat.find_spec hsome⟩
  cases hJ : Nat.find hsome with
  | zero =>
      rw [pow_zero, mul_one]
      exact hint
  | succ i =>
      have hbefore := Nat.find_min hsome (m := i) (by omega)
      exact not_le.mp hbefore

/-- A block that has reached the last doubling cannot grow. -/
theorem makeRoom_overflow {J : ℕ} (hd : Doubled capacity J h)
    (hcap : 0 ≤ capacity) (hlast : 2 ^ 31 ≤ capacity * 2 ^ (J + 1))
    (hsize : h.size = capacity * 2 ^ J) (hle : h.size ≤ h.capacity) :
    h.makeRoom = .error .overflow := by
  obtain ⟨j, hj, hcapacity⟩ := hd
  have hbound := doubled_le hcap hj
  have hfull : h.size = h.capacity := by omega
  have hdouble : h.capacity * 2 = capacity * 2 ^ (J + 1) := by
    rw [← hfull, hsize, pow_succ, mul_assoc]
  have hover : int (h.capacity * 2) = .error .overflow := by
    unfold int
    rw [if_neg (by omega)]
  unfold makeRoom increaseHeap
  rw [if_pos hfull, hover]
  rfl

/-- A capacity of zero is doubled to zero. -/
theorem not_storesInRoom_zero (mem : ℕ → ℤ) (type v : ℤ) (vs : List ℤ) :
    ¬ StoresInRoom mem 0 type (v :: vs) := by
  intro hstores
  obtain ⟨outs, h, g, hrun, hgrow, -, hroom, -⟩ :=
    hstores [] v (List.prefix_append [v] vs)
  obtain ⟨-, rfl⟩ := Prod.mk.inj (Except.ok.inj hrun)
  obtain rfl : _ = g := Except.ok.inj hgrow
  exact absurd hroom (lt_irrefl (0 : ℤ))

/-- The push that would exceed the last doubling finds no room. -/
theorem StoresInRoom.length_le {J : ℕ} {vs : List ℤ}
    (hstores : StoresInRoom mem capacity type vs) (hcap : 1 ≤ capacity)
    (hint : capacity * 2 ^ J < 2 ^ 31)
    (hlast : 2 ^ 31 ≤ capacity * 2 ^ (J + 1)) :
    vs.length ≤ capacity * 2 ^ J := by
  by_contra hlong
  obtain ⟨n, hn⟩ : ∃ n : ℕ, capacity * 2 ^ J = n :=
    Int.eq_ofNat_of_zero_le (mul_nonneg (by omega) (pow_nonneg (by decide) J))
  have hnlen : n < vs.length := by omega
  have hpre : vs.take n ++ [vs.get ⟨n, hnlen⟩] <+: vs := by
    rw [List.get_eq_getElem, List.take_concat_get']
    exact List.take_prefix (n + 1) vs
  have htake : (vs.take n).length = n := by
    rw [List.length_take]
    omega
  obtain ⟨outs, h, hrun, hr, hd⟩ :=
    runCalls_pushes mem type (vs.take n) hcap hint (by omega)
  obtain ⟨outs', h', g, hrun', hgrow, -⟩ := hstores _ _ hpre
  rw [hrun] at hrun'
  obtain ⟨-, rfl⟩ := Prod.mk.inj (Except.ok.inj hrun')
  have hsize := hr.allocated.size_eq
  rw [Multiset.coe_card, htake] at hsize
  rw [makeRoom_overflow hd (by omega) hlast (by omega) hr.allocated.size_le]
    at hgrow
  cases hgrow

/-- Up to a doubling that is an `int` every push finds room. -/
theorem storesInRoom_of_length_le {J : ℕ} {vs : List ℤ} (hcap : 1 ≤ capacity)
    (hint : capacity * 2 ^ J < 2 ^ 31)
    (hlen : vs.length ≤ capacity * 2 ^ J) :
    StoresInRoom mem capacity type vs := by
  intro pre v hpre
  have hprelen := hpre.length_le
  rw [List.length_append, List.length_singleton] at hprelen
  obtain ⟨outs, h, hrun, hr, hd⟩ :=
    runCalls_pushes mem type pre hcap hint (by omega)
  have hsize := hr.allocated.size_eq
  rw [Multiset.coe_card] at hsize
  obtain ⟨g, hgrow, hg, hroom, -, -, hcells⟩ :=
    makeRoom_spec hr.allocated hr.one_le_capacity
      (hd.double_lt (by omega) hint (by omega))
  refine ⟨outs, h, g, hrun, hgrow, ?_, hroom, hg.arr_length, ?_⟩
  · rw [hg.size_eq, hr.allocated.size_eq]
  · intro k hk
    rw [Multiset.coe_card] at hcells
    exact (hcells k (by omega)).symm

/-- Pushes find room, and lose nothing when the block grows, exactly as long as
their number stays within the first capacity or one of its doublings that is
still an `int`. -/
theorem storesInRoom_iff (mem : ℕ → ℤ) (capacity type : ℤ) (vs : List ℤ)
    (hcap : 0 ≤ capacity) (hint : capacity < 2 ^ 31) :
    StoresInRoom mem capacity type vs ↔
      vs = [] ∨ 1 ≤ capacity ∧
        ∃ j : ℕ, vs.length ≤ capacity * 2 ^ j ∧ capacity * 2 ^ j < 2 ^ 31 := by
  constructor
  · intro hstores
    by_cases hone : 1 ≤ capacity
    · obtain ⟨J, hJ, hlast⟩ := exists_last_doubling hone hint
      exact .inr ⟨hone, J, hstores.length_le hone hJ hlast, hJ⟩
    · obtain rfl : capacity = 0 := by omega
      cases vs with
      | nil => exact .inl rfl
      | cons v vs => exact absurd hstores (not_storesInRoom_zero mem type v vs)
  · rintro (rfl | ⟨hone, J, hvs, hJ⟩)
    · intro pre v hpre
      exact absurd (List.prefix_nil.mp hpre) (List.concat_ne_nil v pre)
    · exact storesInRoom_of_length_le hone hJ hvs

theorem storesInRoom_iff_three :
    StoresInRoom (fun _ => 0) 1 minHeap [3, 1, 2] ↔
      ([3, 1, 2] : List ℤ) = [] ∨ (1 : ℤ) ≤ 1 ∧
        ∃ j : ℕ, (([3, 1, 2] : List ℤ).length : ℤ) ≤ 1 * 2 ^ j ∧
          (1 : ℤ) * 2 ^ j < 2 ^ 31 :=
  storesInRoom_iff (fun _ => 0) 1 minHeap [3, 1, 2] (by decide) (by decide)

/-- The first push into a block of no cells. -/
theorem empty_block_has_no_room :
    ¬ ∀ (mem : ℕ → ℤ) (capacity type : ℤ) (vs : List ℤ), 0 ≤ capacity →
      capacity < 2 ^ 31 → StoresInRoom mem capacity type vs :=
  fun h => not_storesInRoom_zero (fun _ => 0) minHeap 5 []
    (h (fun _ => 0) 0 minHeap [5] (by decide) (by decide))

end Heap
end MiscCode
