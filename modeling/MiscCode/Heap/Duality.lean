import Mathlib.Data.Int.ConditionallyCompleteOrder
import Mathlib.Order.ConditionallyCompleteLattice.Basic
import MiscCode.Heap.Contracts
import MiscCode.Support.Fuel
import MiscCode.Support.TwoRuns

/-!
# A maximum heap is a mirrored minimum heap

A `MAX_HEAP` that is given the images of some values under an order-reversing
map does step by step what a `MIN_HEAP` does with the values themselves.  The
cells in use stay images of each other through every access of both sifting
loops, since all comparisons are made by `heap_cond`.
-/

namespace MiscCode
namespace Heap

open PriorityQueue TwoRuns

variable {f : ℤ → ℤ} {S : Set ℤ} {n : ℤ} {h h' : Heap} {v v' i : ℤ}

/-! ## Mirrored heaps -/

/-- A value of `S` and its image. -/
def Mirror (f : ℤ → ℤ) (S : Set ℤ) (v v' : ℤ) : Prop :=
  v ∈ S ∧ v' = f v

/-- A minimum heap and a maximum heap with `n` cells in use each, which hold
images of each other. -/
structure Mirrored (f : ℤ → ℤ) (S : Set ℤ) (n : ℤ) (h h' : Heap) : Prop where
  type_eq : h.type = minHeap
  type_eq' : h'.type = maxHeap
  size_eq : h.size = n
  size_eq' : h'.size = n
  capacity_eq : h'.capacity = h.capacity
  length_eq : h'.arr.length = h.arr.length
  cells : ∀ k : ℕ, k < n → k < h.arr.length → Mirror f S (h.cell k) (h'.cell k)

/-- An order-reversing map turns one comparison into the other. -/
theorem Mirrored.heapCond_eq (hm : Mirrored f S n h h')
    (hf : StrictAntiOn f S) {a a' b b' : ℤ} (ha : Mirror f S a a')
    (hb : Mirror f S b b') : h'.heapCond a' b' = h.heapCond a b := by
  obtain ⟨haS, rfl⟩ := ha
  obtain ⟨hbS, rfl⟩ := hb
  have hmax : h'.type ≠ minHeap := by
    rw [hm.type_eq']
    decide
  unfold heapCond
  rw [if_pos hm.type_eq, if_neg hmax, decide_eq_decide]
  exact hf.lt_iff_gt hbS haS

/-! ## The block -/

/-- Corresponding reads fail together or find images of each other. -/
theorem Mirrored.read (hm : Mirrored f S n h h') (hi : i < n) :
    Paired (Mirror f S) (h.read i) (h'.read i) := by
  unfold Heap.read
  refine paired_ite (by rw [hm.length_eq]) (fun hin => ?_) fun _ => .error _
  exact .ok (hm.cells i.toNat (by omega) (by omega))

/-- Corresponding writes keep the heaps mirrored, also at the cell written. -/
theorem Mirrored.write (hm : Mirrored f S n h h') (hv : Mirror f S v v') :
    Paired (fun g g' => Mirrored f S n g g' ∧
        (i.toNat < g.arr.length →
          Mirror f S (g.cell i.toNat) (g'.cell i.toNat)))
      (h.write i v) (h'.write i v') := by
  unfold Heap.write
  refine paired_ite (by rw [hm.length_eq]) (fun hin => ?_) fun _ => .error _
  have hi : i.toNat < h.arr.length := by omega
  have hi' : i.toNat < h'.arr.length := by
    rw [hm.length_eq]
    exact hi
  have hcell := put_cell hi v
  have hcell' := put_cell hi' v'
  have hat : Mirror f S ((h.put i.toNat v).cell i.toNat)
      ((h'.put i.toNat v').cell i.toNat) := by
    rw [hcell, hcell', Function.update_self, Function.update_self]
    exact hv
  refine .ok ⟨⟨hm.type_eq, hm.type_eq', hm.size_eq, hm.size_eq',
    hm.capacity_eq, ?_, ?_⟩, fun _ => hat⟩
  · rw [List.length_set, List.length_set]
    exact hm.length_eq
  · intro k hk hlen
    change Mirror f S ((h.put i.toNat v).cell k) ((h'.put i.toNat v').cell k)
    by_cases hki : k = i.toNat
    · rw [hki]
      exact hat
    · rw [hcell, hcell', Function.update_of_ne hki, Function.update_of_ne hki]
      rw [List.length_set] at hlen
      exact hm.cells k hk hlen

/-- Corresponding exchanges. -/
theorem Mirrored.swap (hm : Mirrored f S n h h') {j : ℤ} (hi : i < n)
    (hj : j < n) : Paired (Mirrored f S n) (h.swap i j) (h'.swap i j) := by
  unfold Heap.swap
  refine (hm.read hi).bind fun x x' _ hx => ?_
  refine (hm.read hj).bind fun y y' _ hy => ?_
  refine (hm.write hy).bind fun g g' _ hg => ?_
  exact (hg.1.write hx).imp fun _ _ hw => hw.1

theorem int_inv {x y : ℤ} (h : int x = .ok y) : x = y := by
  unfold int at h
  split at h
  · exact Except.ok.inj h
  · cases h

/-- Both blocks are doubled, and no cell in use is lost. -/
theorem Mirrored.increaseHeap (hm : Mirrored f S n h h')
    (hfull : h.size = h.capacity) :
    Paired (Mirrored f S n) h.increaseHeap h'.increaseHeap := by
  have hcapacity : h.capacity = n := hfull.symm.trans hm.size_eq
  unfold Heap.increaseHeap memcpy
  rw [hm.capacity_eq, hcapacity, hm.length_eq]
  refine paired_bind_same fun doubled hdoubled => ?_
  obtain rfl := int_inv hdoubled
  rw [Int.mul_tdiv_cancel n (by omega)]
  have hcopy : ∀ (arr arr' : List ℤ), n ≤ h.arr.length →
      arr = h.arr.take n.toNat ++
        (List.replicate (n * 2).toNat 0).drop n.toNat →
      arr' = h'.arr.take n.toNat ++
        (List.replicate (n * 2).toNat 0).drop n.toNat →
      Mirrored f S n { h with arr := arr, capacity := n * 2 }
        { h' with arr := arr', capacity := n * 2 } := by
    rintro arr arr' hn rfl rfl
    refine ⟨hm.type_eq, hm.type_eq', hm.size_eq, hm.size_eq', rfl, ?_, ?_⟩
    · simp only [List.length_append, List.length_take, hm.length_eq]
    · intro k hk _
      have hlen : k < h.arr.length := by omega
      have hlen' : k < h'.arr.length := by
        rw [hm.length_eq]
        exact hlen
      have htake : k < n.toNat := by omega
      have hold := hm.cells k hk hlen
      unfold cell at hold ⊢
      simpa [List.getElem?_append, htake, hlen, hlen'] using hold
  by_cases hin : 0 ≤ n ∧ n ≤ h.arr.length ∧
      n ≤ (List.replicate (n * 2).toNat (0 : ℤ)).length
  · rw [if_pos hin, if_pos hin]
    exact .ok (hcopy _ _ hin.2.1 rfl rfl)
  · rw [if_neg hin, if_neg hin]
    exact .error _

theorem Mirrored.makeRoom (hm : Mirrored f S n h h') :
    Paired (Mirrored f S n) h.makeRoom h'.makeRoom := by
  unfold Heap.makeRoom
  refine paired_ite ?_ (fun hfull => hm.increaseHeap hfull) fun _ => .ok hm
  rw [hm.size_eq, hm.size_eq', hm.capacity_eq]

/-! ## Sifting -/

theorem getParentIdx_lt (hi : hasParent i = true) : getParentIdx i < i := by
  unfold hasParent at hi
  unfold getParentIdx
  rw [decide_eq_true_eq] at hi
  have hdiv := Int.mul_tdiv_add_tmod (i - 1) 2
  have hmod := Int.lt_tmod_of_pos (i - 1) (b := 2) (by decide)
  omega

theorem Mirrored.adjustUpLoop (hm : Mirrored f S n h h')
    (hf : StrictAntiOn f S) (hi : i < n) (fuel : ℕ) :
    Paired (Mirrored f S n) (Heap.adjustUpLoop fuel h i)
      (Heap.adjustUpLoop fuel h' i) := by
  induction fuel generalizing h h' i with
  | zero => exact .error _
  | succ fuel ih =>
      unfold Heap.adjustUpLoop
      refine paired_ite .rfl (fun hparent => ?_) fun _ => .ok hm
      have hlt : getParentIdx i < n := (getParentIdx_lt hparent).trans hi
      refine (hm.read hi).bind fun x x' _ hx => ?_
      refine (hm.read hlt).bind fun y y' _ hy => ?_
      refine paired_ite (by rw [hm.heapCond_eq hf hx hy]) (fun _ => ?_)
        fun _ => .ok hm
      exact (hm.swap hlt hi).bind fun g g' _ hg => ih hg hlt

/-- The position of a child, when it is an `int`. -/
theorem childIdx_inv {k child : ℤ}
    (h : (int (i * 2) >>= fun twice => int (twice + k)) = .ok child) :
    i * 2 + k = child := by
  obtain ⟨twice, htwice, hchild⟩ := Fuel.bind_eq_ok.mp h
  obtain rfl := int_inv htwice
  exact int_inv hchild

theorem hasLchild_inv {b : Bool} (hb : h.hasLchild i = .ok b) :
    getLchildIdx i = .ok (i * 2 + 1) ∧ (b = true ↔ i * 2 + 1 < h.size) := by
  obtain ⟨left, hleft, hlt⟩ := Fuel.bind_eq_ok.mp hb
  obtain rfl := childIdx_inv hleft
  obtain rfl := Except.ok.inj hlt
  exact ⟨hleft, decide_eq_true_iff⟩

theorem hasRchild_inv {b : Bool} (hb : h.hasRchild i = .ok b) :
    getRchildIdx i = .ok (i * 2 + 2) ∧ (b = true ↔ i * 2 + 2 < h.size) := by
  obtain ⟨right, hright, hlt⟩ := Fuel.bind_eq_ok.mp hb
  obtain rfl := childIdx_inv hright
  obtain rfl := Except.ok.inj hlt
  exact ⟨hright, decide_eq_true_iff⟩

/-- Both heaps choose the same child, ties included. -/
theorem Mirrored.minChildIdx (hm : Mirrored f S n h h')
    (hf : StrictAntiOn f S) (hi : 0 ≤ i)
    (hleft : getLchildIdx i = .ok (i * 2 + 1)) (hlt : i * 2 + 1 < n) :
    Paired (fun c c' => c' = c ∧ 0 ≤ c ∧ c < n) (h.minChildIdx i)
      (h'.minChildIdx i) := by
  have hchild : h'.hasRchild i = h.hasRchild i := by
    unfold Heap.hasRchild
    rw [hm.size_eq, hm.size_eq']
  have hchosen : 0 ≤ i * 2 + 1 ∧ i * 2 + 1 < n := ⟨by omega, hlt⟩
  unfold Heap.minChildIdx getRchild
  rw [hleft, outcome_bind, outcome_bind, hchild]
  refine paired_bind_same fun b hb => ?_
  obtain ⟨hright, hbound⟩ := hasRchild_inv hb
  rw [hm.size_eq] at hbound
  rw [hright, outcome_bind, outcome_bind]
  refine paired_ite .rfl (fun htrue => ?_) fun _ => .ok ⟨rfl, hchosen⟩
  have hrlt : i * 2 + 2 < n := hbound.mp htrue
  refine (hm.read hrlt).bind fun x x' _ hx => ?_
  refine (hm.read hlt).bind fun y y' _ hy => ?_
  refine paired_ite (by rw [hm.heapCond_eq hf hx hy]) ?_ ?_
  · exact fun _ => .ok ⟨rfl, by omega, hrlt⟩
  · exact fun _ => .ok ⟨rfl, hchosen⟩

theorem Mirrored.adjustDownLoop (hm : Mirrored f S n h h')
    (hf : StrictAntiOn f S) (hi : 0 ≤ i) (fuel : ℕ) :
    Paired (Mirrored f S n) (Heap.adjustDownLoop fuel h i)
      (Heap.adjustDownLoop fuel h' i) := by
  induction fuel generalizing h h' i with
  | zero => exact .error _
  | succ fuel ih =>
      have hchild : h'.hasLchild i = h.hasLchild i := by
        unfold Heap.hasLchild
        rw [hm.size_eq, hm.size_eq']
      unfold Heap.adjustDownLoop
      rw [hchild]
      refine paired_bind_same fun b hb => ?_
      obtain ⟨hleft, hbound⟩ := hasLchild_inv hb
      rw [hm.size_eq] at hbound
      refine paired_ite .rfl (fun htrue => ?_) fun _ => .ok hm
      have hlt : i * 2 + 1 < n := hbound.mp htrue
      have hin : i < n := by omega
      refine (hm.minChildIdx hf hi hleft hlt).bind ?_
      rintro c _ - ⟨rfl, hc, hcn⟩
      refine (hm.read hcn).bind fun x x' _ hx => ?_
      refine (hm.read hin).bind fun y y' _ hy => ?_
      refine paired_ite (by rw [hm.heapCond_eq hf hx hy]) (fun _ => ?_)
        fun _ => .ok hm
      exact (hm.swap hcn hin).bind fun g g' _ hg => ih hg hc

/-! ## The two calls -/

/-- Mirrored heaps with their last cell in use in addition, or without it. -/
theorem Mirrored.resize (hm : Mirrored f S n h h') {m : ℤ}
    (hcells : ∀ k : ℕ, k < m → ¬ (k : ℤ) < n → k < h.arr.length →
      Mirror f S (h.cell k) (h'.cell k)) :
    Mirrored f S m { h with size := m } { h' with size := m } where
  type_eq := hm.type_eq
  type_eq' := hm.type_eq'
  size_eq := rfl
  size_eq' := rfl
  capacity_eq := hm.capacity_eq
  length_eq := hm.length_eq
  cells := by
    intro k hk hlen
    by_cases hkn : (k : ℤ) < n
    · exact hm.cells k hkn hlen
    · exact hcells k hk hkn hlen

theorem Mirrored.push (hm : Mirrored f S n h h') (hf : StrictAntiOn f S)
    (hv : Mirror f S v v') :
    Paired (fun g g' => Mirrored f S g.size g g') (h.push v) (h'.push v') := by
  unfold Heap.push
  refine hm.makeRoom.bind fun r r' _ hr => ?_
  rw [hr.size_eq, hr.size_eq']
  refine (hr.write hv).bind fun g g' _ hg => ?_
  rw [hg.1.size_eq, hg.1.size_eq']
  refine paired_bind_same fun size hsize => ?_
  obtain rfl := int_inv hsize
  have hmore : Mirrored f S (n + 1) { g with size := n + 1 }
      { g' with size := n + 1 } := by
    refine hg.1.resize fun k hk hkn hlen => ?_
    obtain hkn : n.toNat = k := by omega
    rw [← hkn] at hlen ⊢
    exact hg.2 hlen
  unfold Heap.adjustUp
  refine (hmore.adjustUpLoop hf (by simp only; omega) _).imp fun o o' ho => ?_
  rw [ho.size_eq]
  exact ho

/-- A removal from mirrored heaps answers values that are images of each
other. -/
theorem Mirrored.pop_of_pos (hm : Mirrored f S n h h') (hf : StrictAntiOn f S)
    (hn : 0 < n) :
    Paired (fun p p' => Mirror f S p.1 p'.1 ∧ Mirrored f S p.2.size p.2 p'.2)
      h.pop h'.pop := by
  have hsize := hm.size_eq
  have hsize' := hm.size_eq'
  unfold Heap.pop
  rw [if_neg (by omega), if_neg (by omega), hsize, hsize']
  refine (hm.read hn).bind fun x x' _ hx => ?_
  refine (hm.read (sub_one_lt n)).bind fun y y' _ hy => ?_
  refine (hm.write hy).bind fun g g' _ hg => ?_
  rw [hg.1.size_eq, hg.1.size_eq']
  have hless : Mirrored f S (n - 1) { g with size := n - 1 }
      { g' with size := n - 1 } :=
    hg.1.resize fun k hk hkn _ => absurd hk (by omega)
  unfold Heap.adjustDown
  refine (hless.adjustDownLoop hf (le_refl 0) _).bind fun o o' _ ho => ?_
  refine .ok ⟨hx, ?_⟩
  rw [ho.size_eq]
  exact ho

theorem Mirrored.pop (hm : Mirrored f S n h h') (hf : StrictAntiOn f S) :
    Paired (fun p p' => Mirrored f S p.2.size p.2 p'.2) h.pop h'.pop := by
  have hsize := hm.size_eq
  have hsize' := hm.size_eq'
  by_cases hn : 0 < n
  · exact (hm.pop_of_pos hf hn).imp fun _ _ hp => hp.2
  · unfold Heap.pop
    rw [if_pos (by omega), if_pos (by omega)]
    refine .ok ?_
    rw [hsize]
    exact hm

/-- Corresponding calls keep the heaps mirrored. -/
theorem Mirrored.call (hm : Mirrored f S n h h') (hf : StrictAntiOn f S)
    {c : Call ℤ} (hc : ∀ v, c = .push v → v ∈ S) :
    Paired (fun p p' => Mirrored f S p.2.size p.2 p'.2) (h.call c)
      (h'.call (c.map f)) := by
  cases c with
  | push v =>
      have hv : Mirror f S v (f v) := ⟨hc v rfl, rfl⟩
      exact (hm.push hf hv).bind fun g g' _ hg => .ok hg
  | pop => exact (hm.pop hf).bind fun p p' _ hp => .ok hp

/-! ## Two runs -/

theorem allocHeap_mirrored (f : ℤ → ℤ) (S : Set ℤ) (mem mem' : ℕ → ℤ)
    (capacity : ℤ) :
    Mirrored f S (allocHeap mem capacity minHeap).size
      (allocHeap mem capacity minHeap) (allocHeap mem' capacity maxHeap) where
  type_eq := rfl
  type_eq' := rfl
  size_eq := rfl
  size_eq' := rfl
  capacity_eq := rfl
  length_eq := by simp [allocHeap]
  cells := fun k hk => absurd hk (by simp [allocHeap])

/-- A minimum heap and a maximum heap that is given the image of every value
under an order-reversing map: after every call their sizes and capacities are
equal, their cells in use are images of each other, and a removal from
non-empty heaps answers a value and its image. -/
theorem runs_mirrored (f : ℤ → ℤ) (S : Set ℤ) (mem mem' : ℕ → ℤ)
    (capacity : ℤ) (calls pre : List (Call ℤ)) (hf : AntitoneOn f S)
    (hinj : S.InjOn f) (hcap : 1 ≤ capacity)
    (hpushed : ∀ v, .push v ∈ calls → v ∈ S)
    (hsmall : StaysSmall mem capacity minHeap calls) (hpre : pre <+: calls) :
    ∃ outs h outs' h', runCalls mem capacity minHeap pre = .ok (outs, h) ∧
      runCalls mem' capacity maxHeap (pre.map (Call.map f)) = .ok (outs', h') ∧
      h'.size = h.size ∧ h'.capacity = h.capacity ∧
      h'.arr.length = h.arr.length ∧
      (∀ i : ℕ, i < h.size → h'.cell i = f (h.cell i)) ∧
      (0 < h.size → ∃ x g g', h.pop = .ok (x, g) ∧ h'.pop = .ok (f x, g')) := by
  have hanti := hf.strictAntiOn_of_injOn hinj
  obtain ⟨outs, h, q, hrun, -, hr⟩ := runCalls_follows hcap (hsmall.mono hpre)
  have hcalls : ∀ c ∈ pre, ∀ h h', Mirrored f S h.size h h' →
      Paired (fun p p' => Mirrored f S p.2.size p.2 p'.2) (call h c)
        (call h' (c.map f)) :=
    fun c hc h h' hm => hm.call hanti fun v hv =>
      hpushed v (hv ▸ hpre.subset hc)
  have hpaired := run_paired (R := fun h h' => Mirrored f S h.size h h')
    hcalls (allocHeap_mirrored f S mem mem' capacity)
  obtain ⟨⟨outs', h'⟩, hrun', hm⟩ := hpaired.exists_ok hrun
  refine ⟨outs, h, outs', h', hrun, hrun', hm.size_eq', hm.capacity_eq,
    hm.length_eq, fun i hi => (hm.cells i hi ?_).2, fun hpos => ?_⟩
  · have hlen := hr.allocated.arr_length
    have hle := hr.allocated.size_le
    change i < h.arr.length
    omega
  · have hsize := hr.allocated.size_eq
    obtain ⟨n, hn⟩ : ∃ n, Multiset.card q = n + 1 :=
      ⟨Multiset.card q - 1, by omega⟩
    obtain ⟨g, hpop, -⟩ :=
      pop_represents hr (hsmall pre outs h hpre hrun) hn
    obtain ⟨⟨x', g'⟩, hpop', hx, -⟩ := (hm.pop_of_pos hanti hpos).exists_ok hpop
    refine ⟨h.cell 0, g, g', hpop, ?_⟩
    rw [hpop', ← hx.2]

/-- Bitwise complement on the values of an `int`. -/
theorem runs_mirrored_complement :
    ∃ outs h outs' h',
      runCalls (fun _ => 7) 1 minHeap [.push 3, .push 1, .pop] =
        .ok (outs, h) ∧
      runCalls (fun _ => 8) 1 maxHeap
          ([.push 3, .push 1, .pop].map (Call.map fun x => -1 - x)) =
        .ok (outs', h') ∧
      h'.size = h.size ∧ h'.capacity = h.capacity ∧
      h'.arr.length = h.arr.length ∧
      (∀ i : ℕ, i < h.size → h'.cell i = -1 - h.cell i) ∧
      (0 < h.size → ∃ x g g', h.pop = .ok (x, g) ∧
        h'.pop = .ok (-1 - x, g')) :=
  runs_mirrored (fun x => -1 - x) (Set.Ico (-2 ^ 31) (2 ^ 31)) (fun _ => 7)
    (fun _ => 8) 1 [.push 3, .push 1, .pop] [.push 3, .push 1, .pop]
    (fun x _ y _ hxy => by simp only; omega)
    (fun x _ y _ hxy => by simp only at hxy; omega) (by decide)
    (fun v hv => by simp at hv; rw [Set.mem_Ico]; omega)
    (staysSmall_of_card_pushed (by decide) (by decide)) List.prefix_rfl

end Heap
end MiscCode
