import MiscCode.Heap.Model
import MiscCode.Support.HeapOrder
import Mathlib.Algebra.Order.Group.Int
import Mathlib.Data.Nat.Cast.Order.Basic

/-!
# Sifting keeps the cells and restores the order

Inside an allocated block no access faults and an exchange of two cells is the
exchange of the tree's elements.  Both sifting loops return, with the cells in
use rearranged into heap order, when the element they start from is the only
one out of place.
-/

namespace MiscCode
namespace Heap

open HeapOrder

/-! ## The order of a heap -/

instance (type : ℤ) : Std.Total (Above type) where
  total a b := by
    unfold Above
    split
    · exact le_total a b
    · exact le_total b a

instance (type : ℤ) : IsTrans ℤ (Above type) where
  trans a b c := by
    unfold Above
    split
    · exact le_trans
    · exact fun hba hcb => le_trans hcb hba

/-- `heap_cond` is the strict order: it fails exactly on elements in order. -/
theorem heapCond_eq_false_iff {h : Heap} {a b : ℤ} :
    h.heapCond a b = false ↔ Above h.type b a := by
  unfold heapCond Above
  split
  · simp
  · simp

theorem above_of_heapCond {h : Heap} {a b : ℤ} (hc : h.heapCond a b = true) :
    Above h.type a b := by
  rcases total_of (Above h.type) a b with hab | hba
  · exact hab
  · rw [heapCond_eq_false_iff.mpr hba] at hc
    exact absurd hc Bool.false_ne_true

/-! ## The block -/

/-- The block has `capacity` cells, the first `n` of them in use. -/
structure Allocated (h : Heap) (n : ℕ) : Prop where
  arr_length : (h.arr.length : ℤ) = h.capacity
  size_eq : h.size = n
  size_le : h.size ≤ h.capacity

theorem Allocated.le_length {h : Heap} {n : ℕ} (ha : h.Allocated n) :
    n ≤ h.arr.length := by
  have hlen := ha.arr_length
  have hsize := ha.size_eq
  have hle := ha.size_le
  omega

/-- A heap after the write `arr[i] = v`. -/
def put (h : Heap) (i : ℕ) (v : ℤ) : Heap :=
  { h with arr := h.arr.set i v }

/-- A heap after the exchange of two cells. -/
def exchange (h : Heap) (i j : ℕ) : Heap :=
  (h.put i (h.cell j)).put j (h.cell i)

theorem read_eq {h : Heap} {i : ℕ} (hi : i < h.arr.length) :
    h.read i = .ok (h.cell i) := by
  unfold read
  rw [if_pos ⟨Int.natCast_nonneg i, Int.ofNat_lt.mpr hi⟩]
  rfl

theorem write_eq {h : Heap} {i : ℕ} (hi : i < h.arr.length) (v : ℤ) :
    h.write i v = .ok (h.put i v) := by
  unfold write
  rw [if_pos ⟨Int.natCast_nonneg i, Int.ofNat_lt.mpr hi⟩]
  rfl

theorem put_length (h : Heap) (i : ℕ) (v : ℤ) :
    (h.put i v).arr.length = h.arr.length :=
  List.length_set

theorem put_cell {h : Heap} {i : ℕ} (hi : i < h.arr.length) (v : ℤ) :
    (h.put i v).cell = Function.update h.cell i v := by
  funext k
  by_cases hk : k = i
  · subst hk
    rw [Function.update_self]
    simp [cell, put, hi]
  · rw [Function.update_of_ne hk]
    simp [cell, put, List.getElem?_set_ne (Ne.symm hk)]

theorem swap_eq {h : Heap} {i j : ℕ} (hi : i < h.arr.length)
    (hj : j < h.arr.length) : h.swap i j = .ok (h.exchange i j) := by
  unfold swap
  rw [read_eq hi, outcome_bind, read_eq hj, outcome_bind, write_eq hi,
    outcome_bind, write_eq (by rw [put_length]; exact hj)]
  rfl

theorem exchange_cell {h : Heap} {i j : ℕ} (hi : i < h.arr.length)
    (hj : j < h.arr.length) :
    (h.exchange i j).cell = h.cell ∘ Equiv.swap i j := by
  unfold exchange
  rw [put_cell (by rw [put_length]; exact hj), put_cell hi]
  funext k
  simp only [Function.comp, Equiv.swap_apply_def, Function.update_apply]
  by_cases hki : k = i
  · subst hki
    by_cases hkj : k = j
    · subst hkj
      simp
    · simp [hkj]
  · simp only [if_neg hki]
    split_ifs <;> rfl

/-- The cells in use, as the tree's elements. -/
theorem Allocated.elements_eq {h : Heap} {n : ℕ} (ha : h.Allocated n) :
    h.elements = held h.cell n := by
  have hn := ha.le_length
  have hlist : h.arr.take n = (List.range n).map h.cell := by
    apply List.ext_getElem
    · simp [hn]
    · intro k hk _
      have hkn : k < n := by
        rw [List.length_take] at hk
        omega
      have hka : k < h.arr.length := hkn.trans_le hn
      simp [cell, hka]
  unfold elements held
  rw [ha.size_eq, Int.toNat_natCast, hlist]
  rfl

/-! ## What a rearrangement keeps -/

/-- `h'` is `h` with the first `n` cells in another order. -/
structure Rearranged (h h' : Heap) (n : ℕ) : Prop where
  size_eq : h'.size = h.size
  capacity_eq : h'.capacity = h.capacity
  type_eq : h'.type = h.type
  length_eq : h'.arr.length = h.arr.length
  held_eq : held h'.cell n = held h.cell n

theorem Rearranged.refl (h : Heap) (n : ℕ) : Rearranged h h n :=
  ⟨rfl, rfl, rfl, rfl, rfl⟩

theorem Rearranged.trans {h h' h'' : Heap} {n : ℕ} (ha : Rearranged h h' n)
    (hb : Rearranged h' h'' n) : Rearranged h h'' n where
  size_eq := hb.size_eq.trans ha.size_eq
  capacity_eq := hb.capacity_eq.trans ha.capacity_eq
  type_eq := hb.type_eq.trans ha.type_eq
  length_eq := hb.length_eq.trans ha.length_eq
  held_eq := hb.held_eq.trans ha.held_eq

theorem Allocated.exchange {h : Heap} {n i j : ℕ} (ha : h.Allocated n)
    (hi : i < n) (hj : j < n) : Rearranged h (h.exchange i j) n where
  size_eq := rfl
  capacity_eq := rfl
  type_eq := rfl
  length_eq := by unfold Heap.exchange; rw [put_length, put_length]
  held_eq := by
    have hn := ha.le_length
    rw [exchange_cell (hi.trans_le hn) (hj.trans_le hn)]
    exact held_exchange hi hj

theorem Rearranged.allocated {h h' : Heap} {n : ℕ} (hr : Rearranged h h' n)
    (ha : h.Allocated n) : h'.Allocated n where
  arr_length := by rw [hr.length_eq, hr.capacity_eq]; exact ha.arr_length
  size_eq := by rw [hr.size_eq]; exact ha.size_eq
  size_le := by rw [hr.size_eq, hr.capacity_eq]; exact ha.size_le

/-! ## adjust_up -/

theorem tdiv_pred_two {i : ℕ} (hi : 0 < i) :
    ((i : ℤ) - 1).tdiv 2 = (parent i : ℕ) := by
  have hcast : (i : ℤ) - 1 = ((i - 1 : ℕ) : ℤ) := by omega
  unfold parent
  rw [hcast]
  exact Int.ofNat_tdiv _ _

theorem hasParent_iff (i : ℕ) : hasParent i = true ↔ 0 < i := by
  unfold hasParent
  rw [decide_eq_true_eq]
  constructor
  · rintro ⟨hne, -⟩
    omega
  · intro hi
    rw [tdiv_pred_two hi]
    omega

/-- An element on its way up arrives. -/
theorem adjustUpLoop_arrives {fuel : ℕ} {h : Heap} {n i : ℕ}
    (ha : h.Allocated n) (hin : i < n) (hfuel : i < fuel)
    (hr : Rising (Above h.type) h.cell n i) :
    ∃ h', adjustUpLoop fuel h i = .ok h' ∧ Rearranged h h' n ∧
      Ordered (Above h.type) h'.cell n := by
  induction fuel generalizing h i with
  | zero => exact absurd hfuel (Nat.not_lt_zero i)
  | succ fuel ih =>
      have hlen := ha.le_length
      unfold adjustUpLoop
      by_cases hi : 0 < i
      · have hp : parent i < i := parent_lt hi
        have hpn : parent i < n := hp.trans hin
        rw [if_pos ((hasParent_iff i).mpr hi), read_eq (hin.trans_le hlen),
          outcome_bind]
        unfold getParent getParentIdx
        rw [tdiv_pred_two hi, read_eq (hpn.trans_le hlen), outcome_bind]
        by_cases hc : h.heapCond (h.cell i) (h.cell (parent i)) = true
        · -- one level up
          have hmoved := ha.exchange hpn hin
          have hcell := exchange_cell (hpn.trans_le hlen) (hin.trans_le hlen)
          have hrising :
              Rising (Above h.type) (h.exchange (parent i) i).cell n
                (parent i) := by
            rw [hcell]
            exact hr.exchange hi hin (above_of_heapCond hc)
          rw [if_pos hc, swap_eq (hpn.trans_le hlen) (hin.trans_le hlen),
            outcome_bind]
          obtain ⟨h', hrun, hrest, hordered⟩ :=
            ih (hmoved.allocated ha) hpn (by omega) hrising
          exact ⟨h', hrun, hmoved.trans hrest, hordered⟩
        · rw [if_neg hc]
          refine ⟨h, rfl, .refl h n, hr.ordered fun _ => ?_⟩
          exact heapCond_eq_false_iff.mp (Bool.eq_false_iff.mpr hc)
      · rw [if_neg (fun hp => hi ((hasParent_iff i).mp hp))]
        exact ⟨h, rfl, .refl h n, hr.ordered fun hpos => absurd hpos hi⟩

/-! ## adjust_down -/

theorem int_eq {x : ℤ} (hlo : -2 ^ 31 ≤ x) (hhi : x < 2 ^ 31) :
    int x = .ok x :=
  if_pos ⟨hlo, hhi⟩

theorem getLchildIdx_eq {i : ℕ} (hi : i < 2 ^ 30) :
    getLchildIdx i = .ok ((2 * i + 1 : ℕ) : ℤ) := by
  have hcast : (i : ℤ) * 2 + 1 = ((2 * i + 1 : ℕ) : ℤ) := by omega
  unfold getLchildIdx
  rw [int_eq (by omega) (by omega), outcome_bind, hcast,
    int_eq (by omega) (by omega)]

theorem getRchildIdx_eq {i : ℕ} (hi : i + 1 < 2 ^ 30) :
    getRchildIdx i = .ok ((2 * i + 2 : ℕ) : ℤ) := by
  have hcast : (i : ℤ) * 2 + 2 = ((2 * i + 2 : ℕ) : ℤ) := by omega
  unfold getRchildIdx
  rw [int_eq (by omega) (by omega), outcome_bind, hcast,
    int_eq (by omega) (by omega)]

/-- The child chosen on the way down stands above the other one. -/
theorem minChildIdx_first {h : Heap} {n i : ℕ} (ha : h.Allocated n)
    (hn : n ≤ 2 ^ 30) (hleft : 2 * i + 1 < n) :
    ∃ c, h.minChildIdx i = .ok (c : ℕ) ∧ IsChild c i ∧ c < n ∧
      ∀ ⦃s⦄, IsChild s i → s < n → Above h.type (h.cell c) (h.cell s) := by
  have hlen := ha.le_length
  unfold minChildIdx hasRchild
  rw [getLchildIdx_eq (by omega), outcome_bind, getRchildIdx_eq (by omega),
    outcome_bind, outcome_bind, ha.size_eq]
  by_cases hright : 2 * i + 2 < n
  · rw [if_pos (decide_eq_true (Int.ofNat_lt.mpr hright))]
    unfold getRchild
    rw [getRchildIdx_eq (by omega), outcome_bind,
      read_eq (hright.trans_le hlen), outcome_bind,
      read_eq (hleft.trans_le hlen), outcome_bind]
    by_cases hc :
        h.heapCond (h.cell (2 * i + 2)) (h.cell (2 * i + 1)) = true
    · rw [if_pos hc]
      refine ⟨2 * i + 2, rfl, isChild_iff.mpr (.inr rfl), hright, ?_⟩
      intro s hs _
      rcases isChild_iff.mp hs with rfl | rfl
      · exact above_of_heapCond hc
      · exact refl_of (Above h.type) _
    · rw [if_neg hc]
      refine ⟨2 * i + 1, rfl, isChild_iff.mpr (.inl rfl), hleft, ?_⟩
      intro s hs _
      rcases isChild_iff.mp hs with rfl | rfl
      · exact refl_of (Above h.type) _
      · exact heapCond_eq_false_iff.mp (Bool.eq_false_iff.mpr hc)
  · have hno : ¬ (decide (((2 * i + 2 : ℕ) : ℤ) < (n : ℤ)) = true) := by
      rw [decide_eq_true_eq, Int.ofNat_lt]
      exact hright
    rw [if_neg hno]
    refine ⟨2 * i + 1, rfl, isChild_iff.mpr (.inl rfl), hleft, ?_⟩
    intro s hs hsn
    rcases isChild_iff.mp hs with rfl | rfl
    · exact refl_of (Above h.type) _
    · exact absurd hsn hright

/-- An element on its way down arrives. -/
theorem adjustDownLoop_arrives {fuel : ℕ} {h : Heap} {n i : ℕ}
    (ha : h.Allocated n) (hn : n ≤ 2 ^ 30) (hi : i < 2 ^ 30) (hin : i ≤ n)
    (hfuel : n < fuel + i) (hs : Sinking (Above h.type) h.cell n i) :
    ∃ h', adjustDownLoop fuel h i = .ok h' ∧ Rearranged h h' n ∧
      Ordered (Above h.type) h'.cell n := by
  induction fuel generalizing h i with
  | zero => omega
  | succ fuel ih =>
      have hlen := ha.le_length
      unfold adjustDownLoop hasLchild
      rw [getLchildIdx_eq hi, outcome_bind, outcome_bind, ha.size_eq]
      by_cases hleft : 2 * i + 1 < n
      · rw [if_pos (decide_eq_true (Int.ofNat_lt.mpr hleft))]
        obtain ⟨c, hchoice, hchild, hcn, hfirst⟩ :=
          minChildIdx_first ha hn hleft
        have hic : i < c := hchild.lt
        have hused : i < n := hic.trans hcn
        rw [hchoice, outcome_bind, read_eq (hcn.trans_le hlen), outcome_bind,
          read_eq (hused.trans_le hlen), outcome_bind]
        by_cases hc : h.heapCond (h.cell c) (h.cell i) = true
        · -- one level down
          have hmoved := ha.exchange hcn hused
          have hcell :=
            exchange_cell (hcn.trans_le hlen) (hused.trans_le hlen)
          have hsinking :
              Sinking (Above h.type) (h.exchange c i).cell n c := by
            rw [hcell]
            exact hs.exchange hchild hcn hfirst (above_of_heapCond hc)
          rw [if_pos hc, swap_eq (hcn.trans_le hlen) (hused.trans_le hlen),
            outcome_bind]
          obtain ⟨h', hrun, hrest, hordered⟩ :=
            ih (hmoved.allocated ha) (by omega) hcn.le (by omega) hsinking
          exact ⟨h', hrun, hmoved.trans hrest, hordered⟩
        · rw [if_neg hc]
          refine ⟨h, rfl, .refl h n, hs.ordered fun s hsi hsn => ?_⟩
          have hle : Above h.type (h.cell i) (h.cell c) :=
            heapCond_eq_false_iff.mp (Bool.eq_false_iff.mpr hc)
          exact trans_of (Above h.type) hle (hfirst hsi hsn)
      · have hno : ¬ (decide (((2 * i + 1 : ℕ) : ℤ) < (n : ℤ)) = true) := by
          rw [decide_eq_true_eq, Int.ofNat_lt]
          exact hleft
        rw [if_neg hno]
        refine ⟨h, rfl, .refl h n, hs.ordered fun s hsi hsn => ?_⟩
        have hlt := isChild_iff.mp hsi
        omega

end Heap
end MiscCode
