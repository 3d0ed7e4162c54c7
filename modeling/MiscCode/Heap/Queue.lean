import MiscCode.Heap.Sift

/-!
# The heap is a priority queue

A valid heap has its cells in use in heap order inside an allocated block.
`push` and `pop` take valid heaps to valid heaps and do to the multiset of
cells in use what a priority queue does, so every sequence of calls behaves as
one, whatever the type of the heap and the size it starts with.
-/

namespace MiscCode
namespace Heap

open HeapOrder PriorityQueue Calls

/-- An allocated heap in order, holding the elements `q`. -/
structure Represents (type : ℤ) (h : Heap) (q : Multiset ℤ) : Prop where
  allocated : h.Allocated (Multiset.card q)
  one_le_capacity : 1 ≤ h.capacity
  type_eq : h.type = type
  ordered : Ordered (Above type) h.cell (Multiset.card q)
  held_eq : held h.cell (Multiset.card q) = q

variable {type : ℤ} {h : Heap} {q : Multiset ℤ}

theorem card_held (f : ℕ → ℤ) (n : ℕ) : Multiset.card (held f n) = n := by
  unfold held
  rw [Multiset.card_map, Multiset.card_range]

theorem Represents.elements_eq (hr : Represents type h q) : h.elements = q := by
  rw [hr.allocated.elements_eq, hr.held_eq]

/-- A rearrangement of an allocated heap into order. -/
theorem Allocated.represents {h' : Heap} {n : ℕ} (ha : h.Allocated n)
    (hcap : 1 ≤ h.capacity) (hmoved : Rearranged h h' n)
    (hordered : Ordered (Above h.type) h'.cell n) :
    Represents h.type h' (held h.cell n) where
  allocated := by rw [card_held]; exact hmoved.allocated ha
  one_le_capacity := by rw [hmoved.capacity_eq]; exact hcap
  type_eq := hmoved.type_eq
  ordered := by rw [card_held]; exact hordered
  held_eq := by rw [card_held]; exact hmoved.held_eq

theorem allocHeap_represents (mem : ℕ → ℤ) {capacity : ℤ} (type : ℤ)
    (hcap : 1 ≤ capacity) : Represents type (allocHeap mem capacity type) 0 where
  allocated := {
    arr_length := by
      simp only [allocHeap, List.length_map, List.length_range]
      omega
    size_eq := rfl
    size_le := by
      simp only [allocHeap]
      omega }
  one_le_capacity := hcap
  type_eq := rfl
  ordered := by
    intro c _ hc
    exact absurd hc (Nat.not_lt_zero c)
  held_eq := rfl

/-! ## push -/

/-- The capacity with which `push` stores its value. -/
def roomFor (h : Heap) : ℤ :=
  if h.size = h.capacity then h.capacity * 2 else h.capacity

theorem one_le_roomFor (hcap : 1 ≤ h.capacity) : 1 ≤ h.roomFor := by
  unfold roomFor
  split <;> omega

/-- Doubling the block keeps the cells in use and makes room for more. -/
theorem increaseHeap_spec {n : ℕ} (ha : h.Allocated n) (hcap : 1 ≤ h.capacity)
    (hfull : h.size = h.capacity) (hint : h.capacity * 2 < 2 ^ 31) :
    ∃ h', h.increaseHeap = .ok h' ∧ h'.Allocated n ∧ h'.size < h'.capacity ∧
      h'.capacity = h.capacity * 2 ∧ h'.type = h.type ∧
      ∀ k < n, h.cell k = h'.cell k := by
  have hlen := ha.arr_length
  have hsize := ha.size_eq
  have hlenn : h.arr.length = n := by omega
  have hdouble : (h.capacity * 2).tdiv 2 = n := by
    rw [Int.mul_tdiv_cancel _ (by omega)]
    omega
  have htoNat : (h.capacity * 2).toNat = 2 * n := by omega
  let h' : Heap :=
    { h with
      arr := h.arr.take n ++ (List.replicate (2 * n) 0).drop n
      capacity := h.capacity * 2 }
  refine ⟨h', ?_, ⟨?_, hsize, ?_⟩, ?_, rfl, rfl, ?_⟩
  · unfold increaseHeap memcpy
    rw [int_eq (by omega) (by omega), outcome_bind, hdouble, htoNat, if_pos]
    · rfl
    · rw [List.length_replicate]
      omega
  · simp only [h', List.length_append, List.length_take, List.length_drop,
      List.length_replicate]
    omega
  · simp only [h']
    omega
  · simp only [h']
    omega
  · intro k hk
    have hka : k < h.arr.length := by omega
    simp [cell, h', List.getElem?_append, hk, hka]

/-- The heap `push` writes its value to: unchanged, or with a larger block. -/
theorem makeRoom_spec {n : ℕ} (ha : h.Allocated n) (hcap : 1 ≤ h.capacity)
    (hint : h.size = h.capacity → h.capacity * 2 < 2 ^ 31) :
    ∃ g, h.makeRoom = .ok g ∧ g.Allocated n ∧ g.size < g.capacity ∧
      g.capacity = h.roomFor ∧ g.type = h.type ∧
      ∀ k < n, h.cell k = g.cell k := by
  unfold makeRoom roomFor
  by_cases hfull : h.size = h.capacity
  · rw [if_pos hfull, if_pos hfull]
    exact increaseHeap_spec ha hcap hfull (hint hfull)
  · rw [if_neg hfull, if_neg hfull]
    have hle := ha.size_le
    exact ⟨h, rfl, ha, lt_of_le_of_ne hle hfull, rfl, rfl, fun _ _ => rfl⟩

/-- The heap with one more cell in use, after the `n` others. -/
def withLast (h : Heap) (n : ℕ) (v : ℤ) : Heap :=
  { h.put n v with size := h.size + 1 }

theorem Allocated.withLast {n : ℕ} (ha : h.Allocated n)
    (hroom : h.size < h.capacity) (v : ℤ) :
    (h.withLast n v).Allocated (n + 1) where
  arr_length := by
    simp only [Heap.withLast, put_length]
    exact ha.arr_length
  size_eq := by
    simp only [Heap.withLast, ha.size_eq]
    rfl
  size_le := hroom

theorem Allocated.lt_length {n : ℕ} (ha : h.Allocated n)
    (hroom : h.size < h.capacity) : n < h.arr.length := by
  have hsize := ha.size_eq
  have hlen := ha.arr_length
  omega

/-- `push` writes its value to the first free cell and sifts it up. -/
theorem push_eq {g : Heap} {n : ℕ} (hgrow : h.makeRoom = .ok g)
    (hg : g.Allocated n) (hroom : g.size < g.capacity) (hn : n + 1 < 2 ^ 31)
    (v : ℤ) : h.push v = (g.withLast n v).adjustUp := by
  have hgsize := hg.size_eq
  have hput : (g.put n v).size = n := hgsize
  have hwrite : { g.put n v with size := (n : ℤ) + 1 } = g.withLast n v := by
    rw [withLast, hgsize]
  unfold push
  rw [hgrow, outcome_bind, hgsize, write_eq (hg.lt_length hroom), outcome_bind,
    hput, int_eq (by omega) (by omega), outcome_bind, hwrite]

/-- `adjust_up` puts a heap with one more element back into order. -/
theorem adjustUp_withLast {g : Heap} {n : ℕ} (hg : g.Allocated n)
    (hroom : g.size < g.capacity) (hcap : 1 ≤ g.capacity)
    (hordered : Ordered (Above g.type) g.cell n) (v : ℤ) :
    ∃ h', (g.withLast n v).adjustUp = .ok h' ∧
      Represents g.type h' (v ::ₘ held g.cell n) ∧
      h'.capacity = g.capacity := by
  have hw := hg.withLast hroom v
  have hwcell : (g.withLast n v).cell = Function.update g.cell n v :=
    put_cell (hg.lt_length hroom) v
  have hrising : Rising (Above (g.withLast n v).type) (g.withLast n v).cell
      (n + 1) n := by
    rw [hwcell]
    exact hordered.rising v
  have hindex : (g.withLast n v).size - 1 = (n : ℤ) := by
    rw [hw.size_eq]
    omega
  have hbudget : n < (g.withLast n v).size.toNat + 1 := by
    rw [hw.size_eq]
    omega
  obtain ⟨h', hrun, hmoved, hdone⟩ :=
    adjustUpLoop_arrives hw (Nat.lt_succ_self n) hbudget hrising
  refine ⟨h', ?_, ?_, hmoved.capacity_eq⟩
  · unfold adjustUp
    rw [hindex]
    exact hrun
  · rw [← held_update_last, ← hwcell]
    exact hw.represents hcap hmoved hdone

/-- `push` adds its value as long as sizes and capacities stay `int`s. -/
theorem push_grows (hr : Represents type h q)
    (hint : h.size = h.capacity → h.capacity * 2 < 2 ^ 31)
    (hnext : h.size + 1 < 2 ^ 31) (v : ℤ) :
    ∃ h', h.push v = .ok h' ∧ Represents type h' (v ::ₘ q) ∧
      h'.capacity = h.roomFor := by
  obtain ⟨n, hn⟩ : ∃ n, Multiset.card q = n := ⟨_, rfl⟩
  have hh := hr.allocated
  have hsize := hh.size_eq
  rw [hn] at hh hsize
  obtain ⟨g, hgrow, hg, hroom, hgcap, hgtype, hcells⟩ :=
    makeRoom_spec hh hr.one_le_capacity hint
  have hone : 1 ≤ g.capacity := by
    rw [hgcap]
    exact one_le_roomFor hr.one_le_capacity
  have hordered : Ordered (Above g.type) g.cell n := by
    rw [hgtype, hr.type_eq, ← hn]
    exact hr.ordered.congr fun k hk => hcells k (hn ▸ hk)
  have hheld : held g.cell n = q := by
    rw [← held_congr hcells, ← hn, hr.held_eq]
  obtain ⟨h', hup, hr', hcap'⟩ := adjustUp_withLast hg hroom hone hordered v
  rw [hgtype, hr.type_eq, hheld] at hr'
  refine ⟨h', ?_, hr', hcap'.trans hgcap⟩
  rw [push_eq hgrow hg hroom (by omega), hup]

/-- A heap that is not too large has room for one more. -/
theorem push_represents (hr : Represents type h q)
    (hsmall : h.size < 2 ^ 30) (v : ℤ) :
    ∃ h', h.push v = .ok h' ∧ Represents type h' (v ::ₘ q) := by
  obtain ⟨h', hpush, hr', -⟩ :=
    push_grows hr (fun hfull => by omega) (by omega) v
  exact ⟨h', hpush, hr'⟩

/-! ## pop -/

/-- `pop` on an empty heap changes nothing. -/
theorem pop_empty (hr : Represents type h 0) : h.pop = .ok (-1, h) := by
  have hsize : h.size = 0 := hr.allocated.size_eq
  unfold pop
  rw [if_pos (by omega)]

/-- The root of a non-empty heap is the first of its elements. -/
theorem Represents.isFirst {n : ℕ} (hr : Represents type h q)
    (hn : Multiset.card q = n + 1) : IsFirst (Above type) q (h.cell 0) := by
  have hordered := hr.ordered
  have hheld := hr.held_eq
  rw [hn] at hordered hheld
  constructor
  · rw [← hheld]
    exact mem_held.mpr ⟨0, Nat.succ_pos n, rfl⟩
  · intro y hy
    rw [← hheld] at hy
    obtain ⟨k, hk, rfl⟩ := mem_held.mp hy
    exact hordered.root k hk

/-- The heap whose last cell in use, after `n` others, has replaced the root. -/
def lastToRoot (h : Heap) (n : ℕ) : Heap :=
  { h.put 0 (h.cell n) with size := h.size - 1 }

theorem Allocated.lastToRoot {n : ℕ} (ha : h.Allocated (n + 1)) :
    (h.lastToRoot n).Allocated n where
  arr_length := by
    simp only [Heap.lastToRoot, put_length]
    exact ha.arr_length
  size_eq := by
    simp only [Heap.lastToRoot, ha.size_eq]
    omega
  size_le := by
    have hle := ha.size_le
    have hcap : (h.lastToRoot n).capacity = h.capacity := rfl
    have hsize : (h.lastToRoot n).size = h.size - 1 := rfl
    omega

/-- `pop` reads the root, moves the last element there and sifts it down. -/
theorem pop_eq {h' : Heap} {n : ℕ} (ha : h.Allocated (n + 1))
    (hdown : (h.lastToRoot n).adjustDown = .ok h') :
    h.pop = .ok (h.cell 0, h') := by
  have hsize := ha.size_eq
  have hlen := ha.le_length
  have h0len : 0 < h.arr.length := by omega
  have hnlen : n < h.arr.length := by omega
  have hlast : h.size - 1 = (n : ℤ) := by omega
  have hread : h.read 0 = .ok (h.cell 0) := read_eq (i := 0) h0len
  have hwrite : ∀ v, h.write 0 v = .ok (h.put 0 v) :=
    fun v => write_eq (i := 0) h0len v
  have hmove : { h.put 0 (h.cell n) with
      size := (h.put 0 (h.cell n)).size - 1 } = h.lastToRoot n := rfl
  unfold pop
  rw [if_neg (by omega), hread, outcome_bind, hlast, read_eq hnlen,
    outcome_bind, hwrite, outcome_bind, hmove, hdown, outcome_bind]

/-- `pop` on a non-empty heap takes out its first element; the positions below
the last one have children whose positions are `int`s. -/
theorem pop_takes_first {n : ℕ} (hr : Represents type h q)
    (hsmall : h.size ≤ 2 ^ 30) (hn : Multiset.card q = n + 1) :
    ∃ h', h.pop = .ok (h.cell 0, h') ∧
      Represents type h' (q.erase (h.cell 0)) := by
  have hh := hr.allocated
  have hordered := hr.ordered
  have hheld := hr.held_eq
  rw [hn] at hh hordered hheld
  have hsize := hh.size_eq
  have hlen := hh.le_length
  have hw := hh.lastToRoot
  have hwcell : (h.lastToRoot n).cell = Function.update h.cell 0 (h.cell n) :=
    put_cell (Nat.lt_of_lt_of_le (Nat.succ_pos n) hlen) (h.cell n)
  have htype : (h.lastToRoot n).type = type := hr.type_eq
  have hsinking : Sinking (Above (h.lastToRoot n).type) (h.lastToRoot n).cell
      n 0 := by
    rw [hwcell, htype]
    exact hordered.sinking
  have hbudget : n < (h.lastToRoot n).size.toNat + 1 + 0 := by
    rw [hw.size_eq]
    omega
  obtain ⟨h', hrun, hmoved, hdone⟩ :=
    adjustDownLoop_arrives hw (by omega) (by omega) (Nat.zero_le n) hbudget
      hsinking
  have hrest : held (h.lastToRoot n).cell n = q.erase (h.cell 0) := by
    rw [hwcell, ← hheld, ← held_update_root, Multiset.erase_cons_head]
  refine ⟨h', pop_eq hh hrun, ?_⟩
  rw [← hrest, ← htype]
  exact hw.represents hr.one_le_capacity hmoved hdone

theorem pop_represents {n : ℕ} (hr : Represents type h q)
    (hsmall : h.size < 2 ^ 30) (hn : Multiset.card q = n + 1) :
    ∃ h', h.pop = .ok (h.cell 0, h') ∧
      Represents type h' (q.erase (h.cell 0)) :=
  pop_takes_first hr hsmall.le hn

/-! ## Sequences of calls -/

/-- A call on the heap is the call on the queue of its elements. -/
theorem call_serves (c : Call ℤ) (hr : Represents type h q)
    (hsmall : h.size < 2 ^ 30) :
    ∃ o h' q', call h c = .ok (o, h') ∧
      Serves (Above type) (-1) q c o q' ∧ Represents type h' q' := by
  cases c with
  | push v =>
      obtain ⟨h', hpush, hr'⟩ := push_represents hr hsmall v
      refine ⟨none, h', v ::ₘ q, ?_, .push q v, hr'⟩
      simp only [call, hpush, outcome_bind]
  | pop =>
      cases hcard : Multiset.card q with
      | zero =>
          obtain rfl := Multiset.card_eq_zero.mp hcard
          refine ⟨some (-1), h, 0, ?_, .idle, hr⟩
          simp only [call, pop_empty hr, outcome_bind]
      | succ n =>
          obtain ⟨h', hpop, hr'⟩ := pop_represents hr hsmall hcard
          refine ⟨some (h.cell 0), h', _, ?_, .pop (hr.isFirst hcard), hr'⟩
          simp only [call, hpop, outcome_bind]

/-- Every sequence of calls on a new heap is one on an empty queue. -/
theorem runCalls_follows {mem : ℕ → ℤ} {capacity : ℤ} {calls : List (Call ℤ)}
    (hcap : 1 ≤ capacity) (hsmall : StaysSmall mem capacity type calls) :
    ∃ outs h q, runCalls mem capacity type calls = .ok (outs, h) ∧
      Follows (Serves (Above type) (-1)) 0 calls outs q ∧
      Represents type h q :=
  run_follows (R := Represents type)
    (fun _ _ c hr hs => call_serves c hr hs)
    (allocHeap_represents mem type hcap) hsmall

end Heap
end MiscCode
