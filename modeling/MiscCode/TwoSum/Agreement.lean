import MiscCode.TwoSum.Model
import Mathlib.Data.List.Induction
import Mathlib.Order.Nat
import Mathlib.Data.Nat.Find

/-!
# When the two solutions agree

Both programs stop at the first index `i` that has a partner, and without one
both answer nothing.  The slow one adds the first partner to the right of `i`.
The fast one adds the first index that holds the complement, which is the same
index unless the element is its own complement: then it is `i` once more.
-/

namespace MiscCode
namespace TwoSum

variable {nums : List Int32} {target : Int32} {i j : ℕ} {v w : Int32}

/-! ## Complements -/

theorem sub_eq (h : InRange target v) : sub target v = .ok (target - v) :=
  if_pos h

theorem eq_complement_iff (h : InRange target v) :
    w = target - v ↔ v.toInt + w.toInt = target.toInt := by
  obtain ⟨hlo, hhi⟩ := h
  rw [← Int32.toInt_inj, Int32.toInt_sub,
    Int.bmod_eq_of_le (by omega) (by omega)]
  omega

theorem index_eq {α : Type} {xs : List α} {k : ℕ} {x : α}
    (h : xs[k]? = some x) : index xs k = .ok x := by
  unfold index
  rw [h]

/-- `k` is an index other than `i` that holds the complement of `i`'s value. -/
def IsPartner (nums : List Int32) (target : Int32) (i k : ℕ) : Prop :=
  k ≠ i ∧ ∃ v w, nums[i]? = some v ∧ nums[k]? = some w ∧
    v.toInt + w.toInt = target.toInt

theorem IsPartner.symm (h : IsPartner nums target i j) :
    IsPartner nums target j i := by
  obtain ⟨hne, v, w, hv, hw, hsum⟩ := h
  exact ⟨hne.symm, w, v, hw, hv, by omega⟩

theorem isPair_iff : IsPair nums target i j ↔
    i < j ∧ IsPartner nums target i j := by
  constructor
  · rintro ⟨hij, h⟩
    exact ⟨hij, hij.ne', h⟩
  · rintro ⟨hij, -, h⟩
    exact ⟨hij, h⟩

theorem isPartner_iff (hv : nums[i]? = some v) (h : InRange target v) :
    IsPartner nums target i j ↔ j ≠ i ∧ nums[j]? = some (target - v) := by
  constructor
  · rintro ⟨hne, v', w, hv', hw, hsum⟩
    obtain rfl := Option.some.inj (hv.symm.trans hv')
    rw [← (eq_complement_iff h).mpr hsum]
    exact ⟨hne, hw⟩
  · rintro ⟨hne, hw⟩
    exact ⟨hne, v, _, hv, hw, (eq_complement_iff h).mp rfl⟩

/-- Before the first index of a pair no index has a partner. -/
theorem no_partner_before (hfirst : ∀ i' < i, ∀ j, ¬ IsPair nums target i' j)
    {k : ℕ} (hk : k < i) (l : ℕ) : ¬ IsPartner nums target k l := by
  intro hp
  rcases Nat.lt_or_gt_of_ne hp.1 with hlk | hkl
  · exact hfirst l (hlk.trans hk) k (isPair_iff.mpr ⟨hlk, hp.symm⟩)
  · exact hfirst k hk l (isPair_iff.mpr ⟨hkl, hp⟩)

/-- Without a pair no index has a partner. -/
theorem no_partner (hnone : ∀ i j, ¬ IsPair nums target i j) (k l : ℕ) :
    ¬ IsPartner nums target k l :=
  no_partner_before (i := k + 1) (fun i' _ => hnone i') (Nat.lt_succ_self k) l

/-! ## The index map -/

/-- The indices that hold `v`, in order. -/
def occurrences (nums : List Int32) (v : Int32) : List ℕ :=
  (nums.zipIdx.filter fun p => p.1 = v).map Prod.snd

theorem mem_occurrences {k : ℕ} :
    k ∈ occurrences nums v ↔ nums[k]? = some v := by
  unfold occurrences
  simp only [List.mem_map, List.mem_filter, List.mem_zipIdx_iff_getElem?,
    decide_eq_true_eq]
  constructor
  · rintro ⟨⟨x, k'⟩, ⟨hx, rfl⟩, rfl⟩
    exact hx
  · intro h
    exact ⟨(v, k), ⟨h, rfl⟩, rfl⟩

theorem occurrences_sorted (nums : List Int32) (v : Int32) :
    (occurrences nums v).Pairwise (· < ·) := by
  have hsub : (occurrences nums v).Sublist (List.range nums.length) := by
    have hall : nums.zipIdx.map Prod.snd = List.range nums.length := by
      rw [List.zipIdx_map_snd, List.range_eq_range']
    rw [← hall]
    exact List.filter_sublist.map Prod.snd
  exact List.pairwise_lt_range.sublist hsub

theorem occurrences_append (xs : List Int32) (x v : Int32) :
    occurrences (xs ++ [x]) v =
      occurrences xs v ++ if x = v then [xs.length] else [] := by
  unfold occurrences
  rw [List.zipIdx_append, List.filter_append, List.map_append]
  by_cases hx : x = v
  · simp [hx]
  · simp [hx]

theorem indexMap_append (xs : List Int32) (x : Int32) :
    indexMap (xs ++ [x]) = (indexMap xs).enter (x, xs.length) := by
  unfold indexMap
  rw [List.zipIdx_append, List.foldl_append]
  simp

/-- The map holds the indices of every value that occurs. -/
theorem indexMap_eq (nums : List Int32) (v : Int32) :
    indexMap nums v =
      if occurrences nums v = [] then none else some (occurrences nums v) := by
  induction nums using List.reverseRecOn generalizing v with
  | nil => rfl
  | append_singleton xs x ih =>
      rw [indexMap_append, occurrences_append]
      unfold IndexMap.enter
      simp only [ih x]
      by_cases hx : x = v
      · subst hx
        by_cases hocc : occurrences xs x = []
        · simp [hocc]
        · simp [hocc]
      · have hne : v ≠ x := fun h => hx h.symm
        by_cases hocc : occurrences xs x = []
        · simp only [hocc, if_true, Function.update_of_ne hne, ih v, hx,
            if_false, List.append_nil]
        · simp only [hocc, if_false, Function.update_of_ne hne, ih v, hx,
            List.append_nil]

theorem indexMap_of_mem {k : ℕ} (h : nums[k]? = some v) :
    indexMap nums v = some (occurrences nums v) := by
  rw [indexMap_eq, if_neg (List.ne_nil_of_mem (mem_occurrences.mpr h))]

theorem indexMap_of_not_mem (h : ∀ k : ℕ, nums[k]? ≠ some v) :
    indexMap nums v = none := by
  rw [indexMap_eq, if_pos]
  exact List.eq_nil_iff_forall_not_mem.mpr
    fun k hk => h k (mem_occurrences.mp hk)

/-- The first index that holds `v` is the head of its vector. -/
theorem index_occurrences {k : ℕ} (h : nums[k]? = some v)
    (hleast : ∀ l < k, nums[l]? ≠ some v) :
    index (occurrences nums v) 0 = .ok k := by
  have hmem := mem_occurrences.mpr h
  have hsorted := occurrences_sorted nums v
  cases hocc : occurrences nums v with
  | nil =>
      rw [hocc] at hmem
      exact absurd hmem List.not_mem_nil
  | cons f fs =>
      rw [hocc] at hmem hsorted
      have hf : nums[f]? = some v := by
        apply mem_occurrences.mp
        rw [hocc]
        exact List.mem_cons_self
      have hfk : f = k := by
        rcases List.mem_cons.mp hmem with hk | hk
        · exact hk.symm
        · have hlt := List.rel_of_pairwise_cons hsorted hk
          exact absurd hf (hleast f hlt)
      rw [hfk]
      rfl

/-- An index that holds `v` alone has a vector of its own. -/
theorem length_occurrences_lt_two (h : ∀ k, nums[k]? = some v → k = i) :
    (occurrences nums v).length < 2 := by
  have hsorted := occurrences_sorted nums v
  have hmem : ∀ k ∈ occurrences nums v, k = i :=
    fun k hk => h k (mem_occurrences.mp hk)
  cases hocc : occurrences nums v with
  | nil => exact Nat.succ_pos 1
  | cons f fs =>
      rw [hocc] at hsorted hmem
      cases fs with
      | nil => exact Nat.lt_succ_self 1
      | cons g gs =>
          have hlt : f < g :=
            List.rel_of_pairwise_cons hsorted List.mem_cons_self
          have hf := hmem f List.mem_cons_self
          have hg := hmem g (List.mem_cons_of_mem f List.mem_cons_self)
          omega

theorem not_length_occurrences_lt_two {k : ℕ} (hki : k ≠ i)
    (hi : nums[i]? = some v) (hk : nums[k]? = some v) :
    ¬ (occurrences nums v).length < 2 := by
  intro hlt
  have hmi := mem_occurrences.mpr hi
  have hmk := mem_occurrences.mpr hk
  obtain ⟨x, hx⟩ := List.length_eq_one_iff.mp
    (Nat.le_antisymm (Nat.lt_succ_iff.mp hlt) (List.length_pos_of_mem hmi))
  rw [hx, List.mem_singleton] at hmi hmk
  exact hki (hmk.trans hmi.symm)

/-! ## The fast solution -/

/-- An index without a partner is passed over. -/
theorem optnumsLoop_skip (hv : nums[i]? = some v) (hr : InRange target v)
    (hno : ∀ k, ¬ IsPartner nums target i k) (rest : List (Int32 × ℕ)) :
    optnumsLoop (indexMap nums) target ((v, i) :: rest) [] =
      optnumsLoop (indexMap nums) target rest [] := by
  have honly : ∀ k, nums[k]? = some (target - v) → k = i := by
    intro k hk
    by_contra hne
    exact hno k ((isPartner_iff hv hr).mpr ⟨hne, hk⟩)
  conv_lhs => unfold optnumsLoop
  rw [sub_eq hr, checked_bind]
  by_cases hself : nums[i]? = some (target - v)
  · have hval : v = target - v := Option.some.inj (hv.symm.trans hself)
    rw [indexMap_of_mem hself]
    simp only
    rw [if_pos ⟨hval, length_occurrences_lt_two honly⟩]
  · rw [indexMap_of_not_mem]
    intro k hk
    rw [honly k hk] at hk
    exact hself hk

/-- An index with a partner ends the loop. -/
theorem optnumsLoop_stop {k : ℕ} (hv : nums[i]? = some v)
    (hr : InRange target v) (hp : IsPartner nums target i k) {f : ℕ}
    (hf : nums[f]? = some (target - v))
    (hleast : ∀ l < f, nums[l]? ≠ some (target - v))
    (rest : List (Int32 × ℕ)) :
    optnumsLoop (indexMap nums) target ((v, i) :: rest) [] =
      .ok [Int32.ofNat i, Int32.ofNat f] := by
  obtain ⟨hki, hk⟩ := (isPartner_iff hv hr).mp hp
  unfold optnumsLoop
  rw [sub_eq hr, checked_bind, indexMap_of_mem hk]
  simp only
  rw [if_neg, index_occurrences hf hleast, checked_bind]
  · rfl
  · rintro ⟨hval, hlt⟩
    rw [← hval] at hk hlt
    exact not_length_occurrences_lt_two hki hv hk hlt

theorem optnumsLoop_append (hfit : DifferencesFit nums target)
    {l r : List (Int32 × ℕ)} (hl : ∀ p ∈ l, nums[p.2]? = some p.1)
    (hno : ∀ p ∈ l, ∀ k, ¬ IsPartner nums target p.2 k) :
    optnumsLoop (indexMap nums) target (l ++ r) [] =
      optnumsLoop (indexMap nums) target r [] := by
  induction l with
  | nil => rfl
  | cons p l ih =>
      obtain ⟨v, i⟩ := p
      have hv : nums[i]? = some v := hl (v, i) List.mem_cons_self
      have hr : InRange target v := hfit v (List.mem_of_getElem? hv)
      rw [List.cons_append,
        optnumsLoop_skip hv hr (hno (v, i) List.mem_cons_self)]
      apply ih
      · exact fun p hp => hl p (List.mem_cons_of_mem _ hp)
      · exact fun p hp => hno p (List.mem_cons_of_mem _ hp)

theorem zipIdx_split (hv : nums[i]? = some v) :
    ∃ l r, nums.zipIdx = l ++ (v, i) :: r ∧
      (∀ p ∈ l, p.2 < i ∧ nums[p.2]? = some p.1) := by
  obtain ⟨hi, rfl⟩ := List.getElem?_eq_some_iff.mp hv
  refine ⟨(nums.take i).zipIdx, (nums.drop (i + 1)).zipIdx (i + 1), ?_, ?_⟩
  · conv_lhs => rw [← List.take_append_drop i nums]
    rw [List.drop_eq_getElem_cons hi, List.zipIdx_append, List.zipIdx_cons,
      List.length_take_of_le hi.le, Nat.zero_add]
  · intro p hp
    have hget := List.mem_zipIdx_iff_getElem?.mp hp
    rw [List.getElem?_take] at hget
    split at hget
    · next hlt => exact ⟨hlt, hget⟩
    · exact absurd hget (by simp)

/-- Without a pair the fast solution answers nothing. -/
theorem solutionOptnums_none (hfit : DifferencesFit nums target)
    (hnone : ∀ i j, ¬ IsPair nums target i j) :
    solutionOptnums nums target = .ok [] := by
  unfold solutionOptnums
  have happend := optnumsLoop_append hfit (l := nums.zipIdx) (r := [])
    (fun p hp => List.mem_zipIdx_iff_getElem?.mp hp)
    (fun p _ => no_partner hnone p.2)
  rw [List.append_nil] at happend
  exact happend

/-- The fast solution answers the first index of a pair and the first index
that holds its complement. -/
theorem solutionOptnums_eq (hfit : DifferencesFit nums target)
    (hfirst : StartsFirst nums target i) (hv : nums[i]? = some v) {f : ℕ}
    (hf : nums[f]? = some (target - v))
    (hleast : ∀ l < f, nums[l]? ≠ some (target - v)) :
    solutionOptnums nums target = .ok [Int32.ofNat i, Int32.ofNat f] := by
  obtain ⟨⟨j, hpair⟩, hbefore⟩ := hfirst
  have hr : InRange target v := hfit v (List.mem_of_getElem? hv)
  obtain ⟨l, r, hsplit, hl⟩ := zipIdx_split hv
  unfold solutionOptnums
  rw [hsplit, optnumsLoop_append hfit (fun p hp => (hl p hp).2)
    (fun p hp => no_partner_before hbefore (hl p hp).1)]
  exact optnumsLoop_stop hv hr (isPair_iff.mp hpair).2 hf hleast r

/-! ## The slow solution -/

/-- The inner loop passes over indices that hold something else. -/
theorem innerLoop_append {t : Int32} {l r : List ℕ}
    (hl : ∀ k ∈ l, k < nums.length ∧ nums[k]? ≠ some t) :
    innerLoop nums t (l ++ r) = innerLoop nums t r := by
  induction l with
  | nil => rfl
  | cons k l ih =>
      obtain ⟨hk, hne⟩ := hl k List.mem_cons_self
      have hget : nums[k]? = some nums[k] := List.getElem?_eq_getElem hk
      rw [List.cons_append]
      conv_lhs => unfold innerLoop
      rw [index_eq hget, checked_bind, if_neg]
      · exact ih fun k' hk' => hl k' (List.mem_cons_of_mem k hk')
      · intro heq
        exact hne (heq ▸ hget)

theorem range'_split {a b k : ℕ} (hak : a ≤ k) (hkb : k < b) :
    List.range' a (b - a) =
      List.range' a (k - a) ++ k :: List.range' (k + 1) (b - (k + 1)) := by
  have hcons : k :: List.range' (k + 1) (b - (k + 1)) =
      List.range' k (b - k) := by
    have hlen : b - k = b - (k + 1) + 1 := by omega
    rw [hlen, List.range'_succ]
  have hsum : b - a = (k - a) + (b - k) := by omega
  have hstart : a + 1 * (k - a) = k := by omega
  rw [hcons, hsum, ← List.range'_append, hstart]

/-- An index without a partner to its right is passed over. -/
theorem outerLoop_skip (hv : nums[i]? = some v) (hr : InRange target v)
    (hno : ∀ k, ¬ IsPartner nums target i k) (is : List ℕ) :
    outerLoop nums target (i :: is) [] = outerLoop nums target is [] := by
  have hinner : innerLoop nums (target - v)
      (List.range' (i + 1) (nums.length - (i + 1))) = .ok none := by
    rw [← List.append_nil (List.range' _ _), innerLoop_append]
    · rfl
    · intro k hk
      rw [List.mem_range'_1] at hk
      refine ⟨by omega, fun hget => hno k ?_⟩
      exact (isPartner_iff hv hr).mpr ⟨by omega, hget⟩
  conv_lhs => unfold outerLoop
  rw [index_eq hv, checked_bind, sub_eq hr, checked_bind, hinner, checked_bind]
  rfl

/-- The first partner to the right of an index ends the loop. -/
theorem outerLoop_stop (hv : nums[i]? = some v) (hr : InRange target v)
    (hij : i < j) (hj : nums[j]? = some (target - v))
    (hleast : ∀ k, i < k → k < j → nums[k]? ≠ some (target - v))
    (is : List ℕ) :
    outerLoop nums target (i :: is) [] =
      .ok [Int32.ofNat i, Int32.ofNat j] := by
  have hlen : j < nums.length := (List.getElem?_eq_some_iff.mp hj).1
  have hinner : innerLoop nums (target - v)
      (List.range' (i + 1) (nums.length - (i + 1))) = .ok (some j) := by
    rw [range'_split hij hlen, innerLoop_append]
    · unfold innerLoop
      rw [index_eq hj, checked_bind, if_pos rfl]
    · intro k hk
      rw [List.mem_range'_1] at hk
      exact ⟨by omega, hleast k (by omega) (by omega)⟩
  unfold outerLoop
  rw [index_eq hv, checked_bind, sub_eq hr, checked_bind, hinner, checked_bind]
  rfl

theorem outerLoop_append (hfit : DifferencesFit nums target) {l r : List ℕ}
    (hl : ∀ k ∈ l, k < nums.length)
    (hno : ∀ k ∈ l, ∀ k', ¬ IsPartner nums target k k') :
    outerLoop nums target (l ++ r) [] = outerLoop nums target r [] := by
  induction l with
  | nil => rfl
  | cons k l ih =>
      have hk : k < nums.length := hl k List.mem_cons_self
      have hget : nums[k]? = some nums[k] := List.getElem?_eq_getElem hk
      rw [List.cons_append, outerLoop_skip hget
        (hfit _ (List.getElem_mem hk)) (hno k List.mem_cons_self)]
      apply ih
      · exact fun k' hk' => hl k' (List.mem_cons_of_mem k hk')
      · exact fun k' hk' => hno k' (List.mem_cons_of_mem k hk')

/-- Without a pair the slow solution answers nothing. -/
theorem solution_none (hfit : DifferencesFit nums target)
    (hnone : ∀ i j, ¬ IsPair nums target i j) :
    solution nums target = .ok [] := by
  unfold solution
  have happend := outerLoop_append hfit (l := List.range nums.length) (r := [])
    (fun k hk => List.mem_range.mp hk) (fun k _ => no_partner hnone k)
  rw [List.append_nil] at happend
  exact happend

/-- The slow solution answers the first index of a pair and the first partner
to its right. -/
theorem solution_eq (hfit : DifferencesFit nums target)
    (hfirst : StartsFirst nums target i) (hv : nums[i]? = some v)
    (hij : i < j) (hj : nums[j]? = some (target - v))
    (hleast : ∀ k, i < k → k < j → nums[k]? ≠ some (target - v)) :
    solution nums target = .ok [Int32.ofNat i, Int32.ofNat j] := by
  have hi : i < nums.length := (List.getElem?_eq_some_iff.mp hv).1
  have hsplit := range'_split (Nat.zero_le i) hi
  simp only [Nat.sub_zero, ← List.range_eq_range'] at hsplit
  unfold solution
  rw [hsplit, outerLoop_append hfit]
  · exact outerLoop_stop hv (hfit v (List.mem_of_getElem? hv)) hij hj hleast _
  · exact fun k hk => (List.mem_range.mp hk).trans hi
  · exact fun k hk => no_partner_before hfirst.2 (List.mem_range.mp hk)

/-! ## Agreement -/

theorem ofNat_inj (hi : i < 2 ^ 31) (hj : j < 2 ^ 31)
    (h : Int32.ofNat i = Int32.ofNat j) : i = j := by
  have hint := congrArg Int32.toInt h
  rw [Int32.toInt_ofNat_of_lt hi, Int32.toInt_ofNat_of_lt hj] at hint
  exact Int.ofNat_inj.mp hint

/-- Only one index is the first of a pair. -/
theorem StartsFirst.unique (hi : StartsFirst nums target i)
    (hj : StartsFirst nums target j) : i = j := by
  obtain ⟨⟨k, hk⟩, hbefore⟩ := hi
  obtain ⟨⟨l, hl⟩, hbefore'⟩ := hj
  rcases Nat.lt_trichotomy i j with hlt | heq | hgt
  · exact absurd hk (hbefore' i hlt k)
  · exact heq
  · exact absurd hl (hbefore j hgt l)

theorem exists_startsFirst (h : ∃ i j, IsPair nums target i j) :
    ∃ i v, StartsFirst nums target i ∧ nums[i]? = some v := by
  classical
  obtain ⟨j, hij, v, w, hv, hw, hsum⟩ := Nat.find_spec h
  exact ⟨Nat.find h, v, ⟨⟨j, hij, v, w, hv, hw, hsum⟩,
    fun i' hi' j hpair => Nat.find_min h hi' ⟨j, hpair⟩⟩, hv⟩

/-- The first index of a pair has a first partner to its right. -/
theorem StartsFirst.exists_least (hfirst : StartsFirst nums target i)
    (hv : nums[i]? = some v) (hr : InRange target v) :
    ∃ j, i < j ∧ nums[j]? = some (target - v) ∧
      ∀ k, i < k → k < j → nums[k]? ≠ some (target - v) := by
  classical
  have hpartner : ∀ k, IsPair nums target i k ↔
      i < k ∧ nums[k]? = some (target - v) := by
    intro k
    rw [isPair_iff, isPartner_iff hv hr]
    constructor
    · exact fun h => ⟨h.1, h.2.2⟩
    · exact fun h => ⟨h.1, h.1.ne', h.2⟩
  obtain ⟨hij, hj⟩ := (hpartner _).mp (Nat.find_spec hfirst.1)
  refine ⟨Nat.find hfirst.1, hij, hj, ?_⟩
  intro k hik hkj hk
  exact Nat.find_min hfirst.1 hkj ((hpartner k).mpr ⟨hik, hk⟩)

/-- Nothing before that index holds the complement. -/
theorem StartsFirst.complement_after (hfirst : StartsFirst nums target i)
    (hv : nums[i]? = some v) (hr : InRange target v) :
    ∀ k < i, nums[k]? ≠ some (target - v) := by
  intro k hki hk
  apply no_partner_before hfirst.2 hki i
  exact ((isPartner_iff hv hr).mpr ⟨hki.ne, hk⟩).symm

/-- The answers of both solutions where a pair exists. -/
theorem solutions_of_startsFirst (hfit : DifferencesFit nums target)
    (hfirst : StartsFirst nums target i) (hv : nums[i]? = some v) :
    ∃ j, i < j ∧ j < nums.length ∧
      solution nums target = .ok [Int32.ofNat i, Int32.ofNat j] ∧
      solutionOptnums nums target = .ok [Int32.ofNat i,
        Int32.ofNat (if 2 * v.toInt = target.toInt then i else j)] := by
  have hr : InRange target v := hfit v (List.mem_of_getElem? hv)
  obtain ⟨j, hij, hj, hleast⟩ := hfirst.exists_least hv hr
  have hbefore := hfirst.complement_after hv hr
  refine ⟨j, hij, (List.getElem?_eq_some_iff.mp hj).1,
    solution_eq hfit hfirst hv hij hj hleast, ?_⟩
  have hself : v = target - v ↔ 2 * v.toInt = target.toInt := by
    rw [eq_complement_iff hr]
    omega
  by_cases htwice : 2 * v.toInt = target.toInt
  · rw [if_pos htwice]
    apply solutionOptnums_eq hfit hfirst hv _ hbefore
    rw [← hself.mpr htwice]
    exact hv
  · rw [if_neg htwice]
    apply solutionOptnums_eq hfit hfirst hv hj
    intro k hkj hk
    rcases Nat.lt_trichotomy k i with hki | rfl | hik
    · exact hbefore k hki hk
    · exact htwice (hself.mp (Option.some.inj (hv.symm.trans hk)))
    · exact hleast k hik hkj hk

/-- The two solutions agree exactly when the first element that has a partner
is not half of the target. -/
theorem solutions_agree_iff (nums : List Int32) (target : Int32)
    (hlen : nums.length ≤ 2 ^ 31 - 1) (hfit : DifferencesFit nums target) :
    solutionOptnums nums target = solution nums target ↔
      ∀ i v, StartsFirst nums target i → nums[i]? = some v →
        2 * v.toInt ≠ target.toInt := by
  by_cases hsome : ∃ i j, IsPair nums target i j
  · obtain ⟨i, v, hfirst, hv⟩ := exists_startsFirst hsome
    obtain ⟨j, hij, hj, hslow, hfast⟩ := solutions_of_startsFirst hfit hfirst hv
    rw [hslow, hfast]
    constructor
    · intro hsame i' v' hfirst' hv' htwice
      obtain rfl := hfirst'.unique hfirst
      obtain rfl := Option.some.inj (hv.symm.trans hv')
      rw [if_pos htwice] at hsame
      have hcast : Int32.ofNat i' = Int32.ofNat j := by
        simpa using hsame
      have := ofNat_inj (by omega) (by omega) hcast
      omega
    · intro hhalf
      rw [if_neg (hhalf i v hfirst hv)]
  · have hnone : ∀ i j, ¬ IsPair nums target i j :=
      fun i j hpair => hsome ⟨i, j, hpair⟩
    rw [solutionOptnums_none hfit hnone, solution_none hfit hnone]
    constructor
    · rintro - i v ⟨⟨j, hpair⟩, -⟩ -
      exact absurd hpair (hnone i j)
    · exact fun _ => rfl

/-- Differences of numbers that are not negative fit. -/
theorem differencesFit_of_nonneg {nums : List Int32} {target : Int32}
    (htarget : 0 ≤ target.toInt)
    (hnums : nums.all (fun v => 0 ≤ v.toInt) = true) :
    DifferencesFit nums target := by
  intro v hv
  have hv' := of_decide_eq_true (List.all_eq_true.mp hnums v hv)
  have hltTarget := Int32.toInt_lt target
  have hlt := Int32.toInt_lt v
  exact ⟨by omega, by omega⟩

theorem solutions_agree_iff_seven :
    (solutionOptnums [1, 2, 3, 4, 5] 7 = solution [1, 2, 3, 4, 5] 7 ↔
      ∀ i v, StartsFirst [1, 2, 3, 4, 5] 7 i →
        ([1, 2, 3, 4, 5] : List Int32)[i]? = some v →
          2 * v.toInt ≠ (7 : Int32).toInt) :=
  solutions_agree_iff [1, 2, 3, 4, 5] 7 (by decide)
    (differencesFit_of_nonneg (by decide) (by decide))

/-- On `[3, 3]` with the target `6` the fast solution answers the first
element twice. -/
theorem two_threes_answered_apart :
    ([3, 3] : List Int32).length ≤ 2 ^ 31 - 1 ∧ DifferencesFit [3, 3] 6 ∧
      (solutionOptnums [3, 3] 6).toOption = some [0, 0] ∧
      (solution [3, 3] 6).toOption = some [0, 1] ∧
      solutionOptnums [3, 3] 6 ≠ solution [3, 3] 6 := by
  have hfast : (solutionOptnums [3, 3] 6).toOption = some [0, 0] := by decide
  have hslow : (solution [3, 3] 6).toOption = some [0, 1] := by decide
  refine ⟨by decide, ?_, hfast, hslow, ?_⟩
  · exact differencesFit_of_nonneg (by decide) (by decide)
  · intro hsame
    rw [hsame, hslow] at hfast
    exact absurd hfast (by decide)

end TwoSum
end MiscCode
