import MiscCode.Snippets.Model
import Mathlib.NumberTheory.PrimeCounting

/-!
# The sieve

`preparePrimes` marks the proper multiples of every number below `N`.  What
stays unmarked below `N * N` is prime, since the least prime factor of a
composite number is at most its square root.  `printNprimes` counts the
unmarked numbers it meets, so it prints the primes in order.
-/

namespace MiscCode
namespace Snippets

open Fuel WhileLoop

variable {arr : Arr} {d m n N : ℕ}

/-! ## The array -/

theorem toInt_ofNat_of_lt_size (h : m < size) :
    (Int32.ofNat m).toInt = (m : ℤ) := by
  unfold size at h
  exact Int32.toInt_ofNat_of_lt (by omega)

theorem bounds_ofNat (h : m < size) :
    0 ≤ (Int32.ofNat m).toInt ∧ (Int32.ofNat m).toInt < size := by
  rw [toInt_ofNat_of_lt_size h]
  omega

theorem load_ofNat (h : m < size) :
    load arr (Int32.ofNat m) = .ok (arr ⟨m, h⟩) := by
  rw [load, dif_pos (bounds_ofNat h)]
  simp only [toInt_ofNat_of_lt_size h, Int.toNat_natCast]

theorem store_ofNat (h : m < size) (v : Int32) :
    store arr (Int32.ofNat m) v = .ok (Function.update arr ⟨m, h⟩ v) := by
  rw [store, dif_pos (bounds_ofNat h)]
  simp only [toInt_ofNat_of_lt_size h, Int.toNat_natCast]

theorem isPrimeFast_ofNat (h : m < size) :
    isPrimeFast arr (Int32.ofNat m) = .ok (decide (arr ⟨m, h⟩ = 0)) := by
  unfold isPrimeFast
  rw [load_ofNat h]
  rfl

/-! ## Marking -/

/-- The inner loop of `preparePrimes` has marked the proper multiples of `d`
below its index. -/
structure MarkedBelow (arr : Arr) (d : ℕ) (s : Int32 × Arr) (k : ℕ) :
    Prop where
  index : s.1 = Int32.ofNat k
  fits : k < 2 ^ 31
  multiple : d ∣ k
  proper : d < k
  marks : ∀ p, s.2 p = 0 ↔ arr p = 0 ∧ ¬ (d < p ∧ d ∣ p ∧ p < k)

/-- Between two neighbouring multiples there is no other. -/
theorem eq_of_dvd_of_lt_add {k p : ℕ} (hk : d ∣ k) (hp : d ∣ p)
    (hle : k ≤ p) (hlt : p < k + d) : p = k := by
  have hdvd : d ∣ p - k := Nat.dvd_sub hp hk
  have hzero : p - k = 0 := Nat.eq_zero_of_dvd_of_lt hdvd (by omega)
  omega

theorem MarkedBelow.step {s : Int32 × Arr} {k : ℕ}
    (hs : MarkedBelow arr d s k) (hd : d < 2 ^ 30) (hk : k < size) :
    MarkedBelow arr d (s.1 + Int32.ofNat d, Function.update s.2 ⟨k, hk⟩ 1)
      (k + d) where
  index := by rw [hs.index, Int32.ofNat_add]
  fits := by
    unfold size at hk
    omega
  multiple := Nat.dvd_add hs.multiple dvd_rfl
  proper := by
    have := hs.proper
    omega
  marks := by
    intro p
    change Function.update s.2 ⟨k, hk⟩ 1 p = 0 ↔ _
    by_cases hp : p = ⟨k, hk⟩
    · subst hp
      rw [Function.update_self]
      have hd0 : 0 < d := Nat.pos_of_ne_zero fun h0 => by
        have := Nat.eq_zero_of_zero_dvd (h0 ▸ hs.multiple)
        have := hs.proper
        omega
      constructor
      · intro hone
        exact absurd hone (by decide)
      · rintro ⟨-, hnot⟩
        exact absurd ⟨hs.proper, hs.multiple, Nat.lt_add_of_pos_right hd0⟩ hnot
    · rw [Function.update_of_ne hp, hs.marks p]
      have hne : (p : ℕ) ≠ k := fun h => hp (Fin.ext h)
      apply and_congr_right'
      apply not_congr
      constructor
      · rintro ⟨hlt, hdvd, hpk⟩
        exact ⟨hlt, hdvd, by omega⟩
      · rintro ⟨hlt, hdvd, hpk⟩
        refine ⟨hlt, hdvd, ?_⟩
        by_contra hge
        exact hne (eq_of_dvd_of_lt_add hs.multiple hdvd (by omega) hpk)

/-- The inner loop marks the proper multiples of its step. -/
theorem mark_ends (arr : Arr) (hd : 2 ≤ d) (hd' : d < 2 ^ 30) :
    ∃ arr', EndsIn .outOfFuel
        (fun fuel => mark fuel (Int32.ofNat d) (Int32.ofNat d * 2) arr)
        (.ok arr') ∧
      ∀ p : Fin size, arr' p = 0 ↔ arr p = 0 ∧ ¬ (d < p ∧ d ∣ p) := by
  apply loop_ends (steady_const (markTurn (Int32.ofNat d)))
    (fun v s => ∃ k, MarkedBelow arr d s k ∧ size - k = v)
  · rintro _ ⟨i, arr'⟩ ⟨k, hs, rfl⟩
    obtain rfl : i = Int32.ofNat k := hs.index
    have hfits := hs.fits
    have hproper := hs.proper
    by_cases hk : k < size
    · refine ⟨.again _, .of_ok (n := 0) ?_, _, ?_, _, hs.step hd' hk, rfl⟩
      · rw [markTurn, if_pos, store_ofNat hk]
        · rfl
        · exact (Int32.ofNat_lt_iff_lt hfits (by decide)).mpr hk
      · omega
    · refine ⟨.leave arr', .of_ok (n := 0) ?_, ?_⟩
      · rw [markTurn, if_neg]
        exact fun hlt => hk ((Int32.ofNat_lt_iff_lt hfits (by decide)).mp hlt)
      · intro p
        rw [hs.marks p]
        have hp : (p : ℕ) < k := by omega
        simp only [hp, and_true]
  · refine ⟨2 * d, ⟨?_, by omega, ⟨2, Nat.mul_comm 2 d⟩, by omega, ?_⟩, rfl⟩
    · rw [Nat.mul_comm, Int32.ofNat_mul]
      rfl
    · intro p
      have hnone : ¬ (d < p ∧ d ∣ p ∧ (p : ℕ) < 2 * d) := by
        rintro ⟨hlt, hdvd, hlt'⟩
        have := eq_of_dvd_of_lt_add dvd_rfl hdvd hlt.le (by omega)
        omega
      simp only [hnone, not_false_iff, and_true]

/-- `m` has a divisor below `n` other than itself and `1`. -/
def HasDivisorBelow (n m : ℕ) : Prop :=
  ∃ d, 2 ≤ d ∧ d < n ∧ d < m ∧ d ∣ m

theorem hasDivisorBelow_succ (hd : 2 ≤ d) :
    HasDivisorBelow (d + 1) m ↔ HasDivisorBelow d m ∨ (d < m ∧ d ∣ m) := by
  constructor
  · rintro ⟨e, he, hlt, hproper, hdvd⟩
    rcases Nat.lt_succ_iff_lt_or_eq.mp hlt with hlt | rfl
    · exact .inl ⟨e, he, hlt, hproper, hdvd⟩
    · exact .inr ⟨hproper, hdvd⟩
  · rintro (⟨e, he, hlt, hproper, hdvd⟩ | ⟨hproper, hdvd⟩)
    · exact ⟨e, he, hlt.trans (Nat.lt_succ_self d), hproper, hdvd⟩
    · exact ⟨d, hd, Nat.lt_succ_self d, hproper, hdvd⟩

/-- Exactly the numbers with a divisor below `n` are marked. -/
def Sieved (arr : Arr) (n : ℕ) : Prop :=
  ∀ p : Fin size, arr p = 0 ↔ ¬ HasDivisorBelow n p

theorem sieved_zeroed : Sieved zeroed 2 := by
  intro p
  constructor
  · rintro - ⟨d, hd, hlt, -⟩
    omega
  · exact fun _ => rfl

/-- `preparePrimes` sieves with every number below its argument. -/
theorem preparePrimes_ends (hN : 2 ≤ N) (hN' : N ≤ 2 ^ 30) :
    ∃ arr, EndsIn .outOfFuel
        (fun fuel => preparePrimes fuel (Int32.ofNat N) zeroed) (.ok arr) ∧
      Sieved arr N := by
  apply loop_ends (steady_prepareTurn (Int32.ofNat N))
    (fun v s => ∃ j, s.1 = Int32.ofNat j ∧ 2 ≤ j ∧ j ≤ N ∧ Sieved s.2 j ∧
      N - j = v)
  · rintro _ ⟨_, arr⟩ ⟨j, rfl, hj, hjN, hs, rfl⟩
    have hlt : Int32.ofNat j < Int32.ofNat N ↔ j < N :=
      Int32.ofNat_lt_iff_lt (by omega) (by omega)
    rcases Nat.lt_or_eq_of_le hjN with hjN | rfl
    · obtain ⟨arr', ⟨-, fuel, hmark⟩, hmarked⟩ :=
        mark_ends arr hj (by omega)
      refine ⟨.again (Int32.ofNat (j + 1), arr'), .of_ok (n := fuel) ?_,
        _, ?_, j + 1, rfl, by omega, hjN, ?_, rfl⟩
      · simp only [prepareTurn, hlt, hjN, if_true, hmark, Int32.ofNat_add]
        rfl
      · omega
      · intro p
        rw [hmarked p, hs p, hasDivisorBelow_succ hj, not_or]
    · refine ⟨.leave arr, .of_ok (n := 0) ?_, hs⟩
      simp only [prepareTurn, hlt, lt_self_iff_false, if_false]
  · exact ⟨2, rfl, le_rfl, hN, sieved_zeroed, rfl⟩

/-! ## Primes -/

/-- Below the square of `n`, a number without a divisor below `n` is prime. -/
theorem not_hasDivisorBelow_iff_prime (hm : 2 ≤ m) (hlt : m < n * n) :
    ¬ HasDivisorBelow n m ↔ m.Prime := by
  constructor
  · intro hnone
    by_contra hm'
    have hsq : m.minFac * m.minFac ≤ m := by
      rw [← Nat.pow_two]
      exact Nat.minFac_sq_le_self (by omega) hm'
    have htwo := (Nat.minFac_prime (by omega : m ≠ 1)).two_le
    apply hnone
    refine ⟨m.minFac, htwo, ?_, ?_, m.minFac_dvd⟩
    · by_contra hge
      have := Nat.mul_le_mul (Nat.le_of_not_lt hge) (Nat.le_of_not_lt hge)
      omega
    · have := Nat.mul_le_mul htwo (le_refl m.minFac)
      omega
  · rintro hprime ⟨d, hd, -, hproper, hdvd⟩
    rcases (Nat.dvd_prime hprime).mp hdvd with h | h <;> omega

/-- The number of primes below an index that is at most the last prime to be
printed is less than the number of primes to be printed. -/
theorem count_lt_iff {i : ℕ} (hn : 1 ≤ n) :
    Nat.count Nat.Prime i < n ↔ i ≤ Nat.nth Nat.Prime (n - 1) := by
  have h : n - 1 < Nat.count Nat.Prime i ↔ Nat.nth Nat.Prime (n - 1) < i :=
    Nat.lt_nth_iff_count_lt Nat.infinite_setOfPred_prime
  omega

/-- The first primes as they are printed. -/
noncomputable def firstPrimes (n : ℕ) : List Int32 :=
  (List.range n).map fun k => Int32.ofNat (Nat.nth Nat.Prime k)

theorem firstPrimes_count_succ {i : ℕ} (hi : i.Prime) :
    firstPrimes (Nat.count Nat.Prime (i + 1)) =
      firstPrimes (Nat.count Nat.Prime i) ++ [Int32.ofNat i] := by
  unfold firstPrimes
  rw [Nat.count_succ, if_pos hi, List.range_succ, List.map_append,
    List.map_singleton, Nat.nth_count hi]

/-- Primes that index the array are printed as they are. -/
theorem firstPrimes_toInt (hlast : Nat.nth Nat.Prime (n - 1) < size) :
    (firstPrimes n).map Int32.toInt =
      (List.range n).map fun k => (Nat.nth Nat.Prime k : ℤ) := by
  unfold firstPrimes
  rw [List.map_map]
  apply List.map_congr_left
  intro k hk
  have hle : Nat.nth Nat.Prime k ≤ Nat.nth Nat.Prime (n - 1) :=
    Nat.nth_monotone Nat.infinite_setOfPred_prime
      (Nat.le_sub_one_of_lt (List.mem_range.mp hk))
  exact toInt_ofNat_of_lt_size (hle.trans_lt hlast)

/-- The primes below `i` are printed, and the index has not run past the last
prime that is wanted. -/
structure PrintedBelow (n : ℕ) (s : Printing) (i : ℕ) : Prop where
  index : s.i = Int32.ofNat i
  two_le : 2 ≤ i
  le_last : i ≤ Nat.nth Nat.Prime (n - 1) + 1
  left : s.n = Int32.ofNat (n - Nat.count Nat.Prime i)
  out : s.out = firstPrimes (Nat.count Nat.Prime i)

/-- Enough is sieved to print `n` primes. -/
structure Prepared (arr : Arr) (N n : ℕ) : Prop where
  sieved : Sieved arr N
  pos : 1 ≤ n
  lt_size : Nat.nth Nat.Prime (n - 1) < size
  lt_square : Nat.nth Nat.Prime (n - 1) < N * N

theorem Prepared.n_lt (h : Prepared arr N n) : n < 2 ^ 31 := by
  have hlt := h.lt_size
  have hle : n - 1 ≤ Nat.nth Nat.Prime (n - 1) :=
    Nat.le_nth fun hf => absurd hf Nat.infinite_setOfPred_prime
  unfold size at hlt
  omega

theorem Prepared.isPrimeFast_eq (h : Prepared arr N n) {i : ℕ} (htwo : 2 ≤ i)
    (hi : i ≤ Nat.nth Nat.Prime (n - 1)) :
    isPrimeFast arr (Int32.ofNat i) = .ok (decide i.Prime) := by
  rw [isPrimeFast_ofNat (hi.trans_lt h.lt_size)]
  congr 1
  rw [decide_eq_decide, h.sieved,
    not_hasDivisorBelow_iff_prime htwo (hi.trans_lt h.lt_square)]

theorem PrintedBelow.step {s : Printing} {i : ℕ} (hs : PrintedBelow n s i)
    (h : Prepared arr N n) (hi : i ≤ Nat.nth Nat.Prime (n - 1)) :
    ∃ s', printTurn arr s = .ok (.again s') ∧ PrintedBelow n s' (i + 1) := by
  have hcount := (count_lt_iff h.pos).mpr hi
  have hn := h.n_lt
  have htwo : 2 ≤ i + 1 := hs.two_le.trans (Nat.le_succ i)
  have hlast : i + 1 ≤ Nat.nth Nat.Prime (n - 1) + 1 := Nat.succ_le_succ hi
  have hpos : 0 < s.n := by
    rw [hs.left]
    exact (Int32.ofNat_lt_iff_lt (a := 0) (by decide) (by omega)).mpr (by omega)
  unfold printTurn
  rw [if_pos hpos, hs.index, h.isPrimeFast_eq hs.two_le hi]
  by_cases hprime : i.Prime
  · refine ⟨_, if_pos (by simpa using hprime), ?_⟩
    refine ⟨(Int32.ofNat_add i 1).symm, htwo, hlast, ?_, ?_⟩
    · rw [hs.left, Nat.count_succ, if_pos hprime, ← Nat.sub_sub,
        Int32.ofNat_sub _ 1 (by omega)]
      rfl
    · rw [hs.out, firstPrimes_count_succ hprime]
  · refine ⟨_, if_neg (by simpa using hprime), ?_⟩
    refine ⟨(Int32.ofNat_add i 1).symm, htwo, hlast, ?_, ?_⟩
    · rw [hs.left, Nat.count_succ, if_neg hprime, Nat.add_zero]
    · rw [hs.out, Nat.count_succ, if_neg hprime, Nat.add_zero]

/-- `printNprimes` prints the first primes. -/
theorem printNprimes_ends (h : Prepared arr N n) :
    EndsIn .outOfFuel (fun fuel => printNprimes fuel arr (Int32.ofNat n))
      (.ok (firstPrimes n)) := by
  have hends : ∃ out, EndsIn .outOfFuel
      (fun fuel => printNprimes fuel arr (Int32.ofNat n)) (.ok out) ∧
      out = firstPrimes n := by
    apply loop_ends (steady_const (printTurn arr))
      (fun v s => ∃ i, PrintedBelow n s i ∧
        Nat.nth Nat.Prime (n - 1) + 1 - i = v)
    · rintro _ s ⟨i, hs, rfl⟩
      have hle := hs.le_last
      by_cases hi : i ≤ Nat.nth Nat.Prime (n - 1)
      · obtain ⟨s', hturn, hs'⟩ := hs.step h hi
        exact ⟨.again s', .of_ok (n := 0) hturn, _, by omega, i + 1, hs', rfl⟩
      · have hcount : Nat.count Nat.Prime i = n := by
          have hi' : i = Nat.nth Nat.Prime (n - 1) + 1 := by omega
          have hprime : (Nat.nth Nat.Prime (n - 1)).Prime :=
            Nat.prime_nth_prime (n - 1)
          have hbelow : Nat.count Nat.Prime (Nat.nth Nat.Prime (n - 1)) =
              n - 1 := Nat.count_nth_of_infinite Nat.infinite_setOfPred_prime _
          have := h.pos
          rw [hi', Nat.count_succ, if_pos hprime, hbelow]
          omega
        refine ⟨.leave s.out, .of_ok (n := 0) ?_, ?_⟩
        · unfold printTurn
          rw [if_neg]
          rw [hs.left, hcount, Nat.sub_self]
          decide
        · exact hs.out.trans (congrArg firstPrimes hcount)
    · refine ⟨2, ⟨rfl, le_rfl, ?_, rfl, rfl⟩, rfl⟩
      have := (Nat.prime_nth_prime (n - 1)).two_le
      omega
  obtain ⟨out, hout, rfl⟩ := hends
  exact hout

/-- After `preparePrimes`, exactly the numbers without a proper divisor below
`N` are unmarked, which are the primes below `N * N`; and `printNprimes` prints
the first primes. -/
theorem sieve_correct (N : ℕ) (hN : 2 ≤ N) (hN' : N ≤ 2 ^ 30) :
    ∃ arr, EndsIn .outOfFuel
        (fun fuel => preparePrimes fuel (Int32.ofNat N) zeroed) (.ok arr) ∧
      (∀ m, 2 ≤ m → m < 1000000 →
        ∃ b, isPrimeFast arr (Int32.ofNat m) = .ok b ∧
          (b = true ↔ ¬ ∃ d, 2 ≤ d ∧ d < m ∧ d < N ∧ d ∣ m) ∧
          (m < N * N → (b = true ↔ m.Prime))) ∧
      ∀ n, 1 ≤ n → Nat.nth Nat.Prime (n - 1) < 1000000 →
        Nat.nth Nat.Prime (n - 1) < N * N →
        ∃ out, EndsIn .outOfFuel
            (fun fuel => printNprimes fuel arr (Int32.ofNat n)) (.ok out) ∧
          out.map Int32.toInt =
            (List.range n).map fun k => (Nat.nth Nat.Prime k : ℤ) := by
  obtain ⟨arr, hends, hsieved⟩ := preparePrimes_ends hN hN'
  refine ⟨arr, hends, ?_, ?_⟩
  · intro m hm hsize
    refine ⟨_, isPrimeFast_ofNat hsize, ?_, ?_⟩
    · rw [decide_eq_true_eq, hsieved]
      apply not_congr
      constructor
      · rintro ⟨d, hd, hdN, hdm, hdvd⟩
        exact ⟨d, hd, hdm, hdN, hdvd⟩
      · rintro ⟨d, hd, hdm, hdN, hdvd⟩
        exact ⟨d, hd, hdN, hdm, hdvd⟩
    · intro hsquare
      rw [decide_eq_true_eq, hsieved, not_hasDivisorBelow_iff_prime hm hsquare]
  · intro n hn hsize hsquare
    exact ⟨_, printNprimes_ends ⟨hsieved, hn, hsize, hsquare⟩,
      firstPrimes_toInt hsize⟩

theorem sieve_correct_ten :
    ∃ arr, EndsIn .outOfFuel
        (fun fuel => preparePrimes fuel (Int32.ofNat 10) zeroed) (.ok arr) ∧
      (∀ m, 2 ≤ m → m < 1000000 →
        ∃ b, isPrimeFast arr (Int32.ofNat m) = .ok b ∧
          (b = true ↔ ¬ ∃ d, 2 ≤ d ∧ d < m ∧ d < 10 ∧ d ∣ m) ∧
          (m < 10 * 10 → (b = true ↔ m.Prime))) ∧
      ∀ n, 1 ≤ n → Nat.nth Nat.Prime (n - 1) < 1000000 →
        Nat.nth Nat.Prime (n - 1) < 10 * 10 →
        ∃ out, EndsIn .outOfFuel
            (fun fuel => printNprimes fuel arr (Int32.ofNat n)) (.ok out) ∧
          out.map Int32.toInt =
            (List.range n).map fun k => (Nat.nth Nat.Prime k : ℤ) :=
  sieve_correct 10 (by decide) (by decide)

end Snippets
end MiscCode
