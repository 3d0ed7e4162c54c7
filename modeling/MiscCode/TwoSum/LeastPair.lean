import MiscCode.TwoSum.Agreement
import Mathlib.Data.Prod.Lex

/-!
# The pair the slow solution answers

Among all pairs with the right sum, the outer loop reaches the least first
index first, and the inner loop its least partner: the answer is the
lexicographically least pair.
-/

namespace MiscCode
namespace TwoSum

variable {nums : List Int32} {target : Int32} {i j : ℕ} {v : Int32}

/-- No pair comes before `(i, j)` in the lexicographic order. -/
structure LeastPair (nums : List Int32) (target : Int32) (i j : ℕ) : Prop where
  isPair : IsPair nums target i j
  least : ∀ i' j', IsPair nums target i' j' → toLex (i, j) ≤ toLex (i', j')

/-- Both indices of a pair lie in the vector. -/
theorem IsPair.lt_length (h : IsPair nums target i j) : j < nums.length := by
  obtain ⟨-, v, w, -, hw, -⟩ := h
  exact (List.getElem?_eq_some_iff.mp hw).1

/-- The first index of a pair and its first partner to the right are the least
pair. -/
theorem StartsFirst.leastPair (hfirst : StartsFirst nums target i)
    (hv : nums[i]? = some v) (hr : InRange target v) (hij : i < j)
    (hj : nums[j]? = some (target - v))
    (hleast : ∀ k, i < k → k < j → nums[k]? ≠ some (target - v)) :
    LeastPair nums target i j where
  isPair := isPair_iff.mpr ⟨hij, (isPartner_iff hv hr).mpr ⟨hij.ne', hj⟩⟩
  least := by
    intro i' j' hpair
    rw [Prod.Lex.toLex_le_toLex]
    rcases Nat.lt_trichotomy i i' with hlt | rfl | hgt
    · exact .inl hlt
    · obtain ⟨hij', hpartner⟩ := isPair_iff.mp hpair
      have hj' := ((isPartner_iff hv hr).mp hpartner).2
      refine .inr ⟨rfl, ?_⟩
      by_contra hlt
      exact hleast j' hij' (Nat.lt_of_not_le hlt) hj'
    · exact absurd hpair (hfirst.2 i' hgt j')

/-- Where there is a pair, the slow solution answers the least one. -/
theorem solution_leastPair (hfit : DifferencesFit nums target)
    (hsome : ∃ i j, IsPair nums target i j) :
    ∃ i j, LeastPair nums target i j ∧
      solution nums target = .ok [Int32.ofNat i, Int32.ofNat j] := by
  obtain ⟨i, v, hfirst, hv⟩ := exists_startsFirst hsome
  have hr : InRange target v := hfit v (List.mem_of_getElem? hv)
  obtain ⟨j, hij, hj, hleast⟩ := hfirst.exists_least hv hr
  exact ⟨i, j, hfirst.leastPair hv hr hij hj hleast,
    solution_eq hfit hfirst hv hij hj hleast⟩

/-- The slow solution answers the lexicographically least pair, and nothing
exactly when there is no pair. -/
theorem solution_answers_least (nums : List Int32) (target : Int32)
    (hlen : nums.length ≤ 2 ^ 31 - 1) (hfit : DifferencesFit nums target) :
    ∃ ans, solution nums target = .ok ans ∧
      (ans = [] ↔ ∀ i j, ¬ IsPair nums target i j) ∧
      (ans ≠ [] → ∃ i j : ℕ, LeastPair nums target i j ∧
        ans.map Int32.toInt = [(i : ℤ), (j : ℤ)]) := by
  by_cases hsome : ∃ i j, IsPair nums target i j
  · obtain ⟨i, j, hpair, hsol⟩ := solution_leastPair hfit hsome
    have hij : i < j := hpair.isPair.1
    have hj : j < nums.length := hpair.isPair.lt_length
    refine ⟨_, hsol, ?_, fun _ => ⟨i, j, hpair, ?_⟩⟩
    · constructor
      · exact fun hnil => absurd hnil (List.cons_ne_nil _ _)
      · exact fun hnone => absurd hpair.isPair (hnone i j)
    · have hcasti := Int32.toInt_ofNat_of_lt (n := i) (by omega)
      have hcastj := Int32.toInt_ofNat_of_lt (n := j) (by omega)
      simp only [List.map_cons, List.map_nil, hcasti, hcastj]
  · have hnone : ∀ i j, ¬ IsPair nums target i j :=
      fun i j hpair => hsome ⟨i, j, hpair⟩
    refine ⟨[], solution_none hfit hnone, ?_, ?_⟩
    · exact ⟨fun _ => hnone, fun _ => rfl⟩
    · exact fun hne => absurd rfl hne

theorem solution_answers_least_seven :
    ∃ ans, solution [1, 2, 5, 2, 5] 7 = .ok ans ∧
      (ans = [] ↔ ∀ i j, ¬ IsPair [1, 2, 5, 2, 5] 7 i j) ∧
      (ans ≠ [] → ∃ i j : ℕ, LeastPair [1, 2, 5, 2, 5] 7 i j ∧
        ans.map Int32.toInt = [(i : ℤ), (j : ℤ)]) :=
  solution_answers_least [1, 2, 5, 2, 5] 7 (by decide)
    (differencesFit_of_nonneg (by decide) (by decide))

end TwoSum
end MiscCode
