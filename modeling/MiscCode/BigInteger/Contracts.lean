import MiscCode.BigInteger.Product

/-!
# Contracts of the product and of overflow

The product of two well-formed numbers as a value, its sign against the sign
of the integer product, and the operands for which a sum or a product that
does not fit would have to be reported.
-/

namespace MiscCode
namespace BigInteger

open Positional

variable {N m n L K : ℕ} {s t : Bool}

/-! ## Calls that return -/

/-- A steady call that returns does not also leave an array. -/
theorem returns_not_leavesArray {α : Type} {call : ℕ → Run α} {r : α}
    {fuel : ℕ} (hs : Fuel.Steady .outOfFuel call) (h : call fuel = .ok r) :
    Returns call r ∧ ¬ LeavesArray call := by
  have hends : Returns call r := .of_ok h
  exact ⟨hends, fun hl => absurd (hs.unique hends hl) Fuel.ok_ne_error⟩

/-! ## The product as a value -/

/-- `a * b` stays in the arrays, its digits are exact, and its length is the
total of both lengths, or one less when the product is that short. -/
def ProductExact (a b : BigInteger N) : Prop :=
  ¬ LeavesArray (fun fuel => mul fuel a b) ∧
    ∃ r, Returns (fun fuel => mul fuel a b) r ∧ r.HasDigits ∧
      r.magnitude = a.magnitude * b.magnitude ∧
      r.len = if 10 ^ (a.len + b.len - 1).toNat ≤ a.magnitude * b.magnitude
        then a.len + b.len else a.len + b.len - 1

theorem mul_returns (hm : Fits N m L) (hn : Fits N n K) (hLK : L + K ≤ N) :
    m * n < 10 ^ N ∧
      mul 1 (encode N m L s) (encode N n K t) =
        .ok (encode N (m * n) (prodLen L K (m * n)) (s && t)) := by
  have hprod : m * n < 10 ^ N := pow_mono hLK (mul_lt_pow hm.lt hn.lt)
  have hcall := mul_encode (f := 0) (s := s) (t := t) hm hn
  rw [if_pos ⟨by omega, hprod⟩] at hcall
  exact ⟨hprod, hcall⟩

/-- Operands with leading zeros included, the product is exact when the
lengths total at most the capacity. -/
theorem mul_exact {a b : BigInteger N} (ha : a.WellFormed)
    (hb : b.WellFormed) (hlen : a.len + b.len ≤ N) : ProductExact a b := by
  obtain ⟨m, L, s, hm, rfl⟩ := ha.exists_encode
  obtain ⟨n, K, t, hn, rfl⟩ := hb.exists_encode
  have hL := hm.one_le
  rw [encode_len, encode_len] at hlen
  obtain ⟨hprod, hcall⟩ := mul_returns (s := s) (t := t) hm hn (by omega)
  obtain ⟨hreturns, hinside⟩ := returns_not_leavesArray (mul_steady _ _) hcall
  refine ⟨hinside, _, hreturns, encode_hasDigits, ?_, ?_⟩
  · rw [magnitude_encode hprod, magnitude_encode hm.lt_pow,
      magnitude_encode hn.lt_pow, Nat.cast_mul]
  · have hexp : ((L : ℤ) + K - 1).toNat = L + K - 1 := by omega
    have hcond : (10 : ℤ) ^ (L + K - 1) ≤ (m : ℤ) * n ↔
        ¬ (m * n < 10 ^ (L + K - 1)) := by
      rw [Nat.not_lt]
      norm_cast
    rw [encode_len, encode_len, encode_len, magnitude_encode hm.lt_pow,
      magnitude_encode hn.lt_pow, hexp, prodLen]
    simp only [hcond]
    split <;> omega

/-- `007` times `-12`. -/
theorem mul_exact_leading_zeros :
    ProductExact (encode 500 7 (3 : ℕ) true) (encode 500 12 (2 : ℕ) false) :=
  mul_exact
    (wellFormed_encode ⟨by omega, by omega, by norm_num⟩)
    (wellFormed_encode ⟨by omega, by omega, by norm_num⟩)
    (by rw [encode_len, encode_len]; norm_num)

/-! ## The sign of the product -/

/-- `a * b == c` for the canonical `c` that denotes the integer product. -/
def ProductIsInteger (a b : BigInteger N) : Prop :=
  ∃ r, Returns (fun fuel => mul fuel a b) r ∧
    ∀ c : BigInteger N, c.Canonical → c.value = a.value * b.value →
      r.eq c = true

/-- Negating both factors leaves the product unchanged under `==`. -/
def NegationInvariant (a b : BigInteger N) : Prop :=
  ∃ r r', Returns (fun fuel => mul fuel a b) r ∧
    Returns (fun fuel =>
      mul fuel (ofInteger N (-a.value)) (ofInteger N (-b.value))) r' ∧
    r'.eq r = true

/-- `a * b == BigInteger(0)`. -/
def ProductIsZero (a b : BigInteger N) : Prop :=
  ∃ r zero, Returns (fun fuel => mul fuel a b) r ∧ ofInt 0 = .ok zero ∧
    r.eq zero = true

/-- The signs for which `isPositive && b.isPositive` is the sign of the
product: both positive, or different without a zero. -/
def SignsMultiply (a b : BigInteger N) : Prop :=
  (a.isPositive = true ∧ b.isPositive = true) ∨
    (a.isPositive ≠ b.isPositive ∧ a.magnitude ≠ 0 ∧ b.magnitude ≠ 0)

theorem value_mul_encode (hm : m < 10 ^ N) (hn : n < 10 ^ N) :
    (encode N m L s).value * (encode N n K t).value =
      if s = t then ((m * n : ℕ) : ℤ) else -((m * n : ℕ) : ℤ) := by
  rw [value_encode hm, value_encode hn]
  cases s <;> cases t <;> simp

/-- A call with a known result, as a statement about that result. -/
theorem exists_returns_iff {α : Type} {call : ℕ → Run α} {r : α}
    {P : α → Prop} (hs : Fuel.Steady .outOfFuel call) (h : Returns call r) :
    (∃ r', Returns call r' ∧ P r') ↔ P r := by
  constructor
  · rintro ⟨r', hr', hP⟩
    rwa [← Except.ok.inj (hs.unique hr' h)]
  · exact fun hP => ⟨r, h, hP⟩

theorem natAbs_signed (p : ℕ) (q : Prop) [Decidable q] :
    (if q then (p : ℤ) else -(p : ℤ)).natAbs = p := by
  split <;> simp

theorem productIsInteger_encode (hm : Fits N m L) (hn : Fits N n K)
    (hLK : L + K ≤ N) :
    ProductIsInteger (encode N m L s) (encode N n K t) ↔
      (s && t) = decide (s = t ∨ m * n = 0) := by
  obtain ⟨hprod, hcall⟩ := mul_returns (s := s) (t := t) hm hn hLK
  have hreturns := (returns_not_leavesArray (mul_steady _ _) hcall).1
  have hv := value_mul_encode (L := L) (K := K) (s := s) (t := t) hm.lt_pow
    hn.lt_pow
  have hsign : decide (0 ≤ (encode N m L s).value * (encode N n K t).value) =
      decide (s = t ∨ m * n = 0) := by
    rw [hv, decide_eq_decide]
    split
    next h => exact iff_of_true (by positivity) (Or.inl h)
    next h =>
      rw [or_iff_right h]
      omega
  have habs : ((encode N m L s).value * (encode N n K t).value).natAbs =
      m * n := by
    rw [hv, natAbs_signed]
  have hcan : ∀ c : BigInteger N, c.Canonical →
      c.value = (encode N m L s).value * (encode N n K t).value →
      ((encode N (m * n) (prodLen L K (m * n)) (s && t)).eq c = true ↔
        (s && t) = decide (s = t ∨ m * n = 0)) := by
    intro c hc hvalue
    rw [hc.eq_ofInteger, hvalue, ofInteger, habs, eq_encode_iff hprod hprod,
      hsign]
    exact and_iff_left rfl
  rw [ProductIsInteger, exists_returns_iff (mul_steady _ _) hreturns]
  constructor
  · intro h
    have hN := hm.pos
    have hcanonical := canonical_ofInteger hN
      (x := (encode N m L s).value * (encode N n K t).value) (by rwa [habs])
    have hvalue := value_ofInteger (N := N)
      (x := (encode N m L s).value * (encode N n K t).value) (by rwa [habs])
    exact (hcan _ hcanonical hvalue).mp (h _ hcanonical hvalue)
  · intro h c hc hvalue
    exact (hcan c hc hvalue).mpr h

/-- The canonical number with the opposite value. -/
theorem ofInteger_neg_value (hm : m < 10 ^ N) (hs : m = 0 → s = true) :
    ofInteger N (-(encode N m L s).value) =
      encode N m (normalLen m) (!s || decide (m = 0)) := by
  rw [value_encode hm, ofInteger]
  cases s with
  | true => simp
  | false => simp

theorem negationInvariant_encode (hmN : normalLen m ≤ N)
    (hnN : normalLen n ≤ N) (hs : m = 0 → s = true) (ht : n = 0 → t = true)
    (hLK : normalLen m + normalLen n ≤ N) :
    NegationInvariant (encode N m (normalLen m) s)
        (encode N n (normalLen n) t) ↔
      ((!s || decide (m = 0)) && (!t || decide (n = 0))) = (s && t) := by
  have hm := fits_normalLen hmN
  have hn := fits_normalLen hnN
  obtain ⟨hprod, hcall⟩ := mul_returns (s := s) (t := t) hm hn hLK
  obtain ⟨-, hcall'⟩ := mul_returns (s := !s || decide (m = 0))
    (t := !t || decide (n = 0)) hm hn hLK
  have hreturns := (returns_not_leavesArray (mul_steady _ _) hcall).1
  have hreturns' := (returns_not_leavesArray (mul_steady _ _) hcall').1
  rw [NegationInvariant, ofInteger_neg_value hm.lt_pow hs,
    ofInteger_neg_value hn.lt_pow ht]
  simp only [exists_and_left]
  rw [exists_returns_iff (mul_steady _ _) hreturns,
    exists_returns_iff (mul_steady _ _) hreturns', eq_encode_iff hprod hprod]
  exact and_iff_left rfl

theorem productIsZero_encode (hm : Fits N m L) (hn : Fits N n K)
    (hLK : L + K ≤ N) :
    ProductIsZero (encode N m L s) (encode N n K t) ↔
      (s && t) = true ∧ m * n = 0 := by
  obtain ⟨hprod, hcall⟩ := mul_returns (s := s) (t := t) hm hn hLK
  have hreturns := (returns_not_leavesArray (mul_steady _ _) hcall).1
  rw [ProductIsZero, ofInt_zero hm.pos]
  simp only [exists_and_left]
  rw [exists_returns_iff (mul_steady _ _) hreturns]
  simp only [Except.ok.injEq, exists_eq_left']
  exact eq_encode_iff hprod (by positivity)

/-- The product has the sign of the integer product exactly for operands whose
signs multiply.  Negating both operands keeps it exactly when both are zero or
the signs differ without a zero, and a zero product is `BigInteger(0)` exactly
when both operands are positive. -/
theorem product_sign_iff {a b : BigInteger N} (ha : a.Canonical)
    (hb : b.Canonical) (hlen : a.len + b.len ≤ N) :
    (ProductIsInteger a b ↔ SignsMultiply a b) ∧
      (NegationInvariant a b ↔ (a.magnitude = 0 ∧ b.magnitude = 0) ∨
        (a.isPositive ≠ b.isPositive ∧ a.magnitude ≠ 0 ∧ b.magnitude ≠ 0)) ∧
      (a.magnitude = 0 ∨ b.magnitude = 0 → (ProductIsZero a b ↔
        a.isPositive = true ∧ b.isPositive = true)) := by
  obtain ⟨m, s, hmN, hm, hs, rfl⟩ := ha.exists_encode
  obtain ⟨n, t, hnN, hn, ht, rfl⟩ := hb.exists_encode
  rw [encode_len, encode_len] at hlen
  have hLK : normalLen m + normalLen n ≤ N := by omega
  have hmfits := fits_normalLen hmN
  have hnfits := fits_normalLen hnN
  rw [productIsInteger_encode hmfits hnfits hLK,
    negationInvariant_encode hmN hnN hs ht hLK,
    productIsZero_encode hmfits hnfits hLK, SignsMultiply,
    magnitude_encode hm, magnitude_encode hn]
  simp only [encode_isPositive, Nat.cast_eq_zero, ne_eq, mul_eq_zero]
  refine ⟨?_, ?_, ?_⟩
  · cases s <;> cases t <;> simp_all
  · cases s <;> cases t <;> simp_all
  · cases s <;> cases t <;> simp_all

/-- `-4 * -5` compares unequal to `20`. -/
theorem neg_four_mul_neg_five :
    (ofInteger 500 (-4)).Canonical ∧ (ofInteger 500 (-5)).Canonical ∧
      (ofInteger 500 (-4)).len + (ofInteger 500 (-5)).len ≤ 500 ∧
      ¬ ProductIsInteger (ofInteger 500 (-4)) (ofInteger 500 (-5)) := by
  have h4 : normalLen 4 = 1 := normalLen_of_lt_ten (by omega)
  have h5 : normalLen 5 = 1 := normalLen_of_lt_ten (by omega)
  refine ⟨(ofInteger_spec 1 (by decide) (by omega) (by omega)).1,
    (ofInteger_spec 1 (by decide) (by omega) (by omega)).1, ?_, ?_⟩
  · simp [ofInteger, h4, h5]
  · have hiff := productIsInteger_encode (N := 500) (s := false) (t := false)
      (fits_normalLen (N := 500) (m := 4) (by omega))
      (fits_normalLen (N := 500) (m := 5) (by omega)) (by omega)
    exact fun h => absurd (hiff.mp h) (by decide)

/-- `12 * -4`, the product of the sample program. -/
theorem product_sign_iff_twelve :
    (ProductIsInteger (ofInteger 500 12) (ofInteger 500 (-4)) ↔
        SignsMultiply (ofInteger 500 12) (ofInteger 500 (-4))) ∧
      (NegationInvariant (ofInteger 500 12) (ofInteger 500 (-4)) ↔
        ((ofInteger 500 12).magnitude = 0 ∧
          (ofInteger 500 (-4)).magnitude = 0) ∨
        ((ofInteger 500 12).isPositive ≠ (ofInteger 500 (-4)).isPositive ∧
          (ofInteger 500 12).magnitude ≠ 0 ∧
          (ofInteger 500 (-4)).magnitude ≠ 0)) ∧
      ((ofInteger 500 12).magnitude = 0 ∨ (ofInteger 500 (-4)).magnitude = 0 →
        (ProductIsZero (ofInteger 500 12) (ofInteger 500 (-4)) ↔
          (ofInteger 500 12).isPositive = true ∧
            (ofInteger 500 (-4)).isPositive = true)) := by
  have h12 : normalLen 12 = 2 :=
    normalLen_eq (Or.inr (by norm_num)) (by norm_num)
  have h4 : normalLen 4 = 1 := normalLen_of_lt_ten (by omega)
  exact product_sign_iff
    (ofInteger_spec 2 (by decide) (by omega) (by omega)).1
    (ofInteger_spec 1 (by decide) (by omega) (by omega)).1
    (by simp [ofInteger, h12, h4])

/-! ## Overflow -/

/-- The call returns the exact result or throws, inside the arrays. -/
def ReportsOverflow (call : ℕ → Run (BigInteger N)) (x : ℤ) : Prop :=
  ((∃ r, Returns call r ∧ r.HasDigits ∧ r.value = x) ∨ Throws call) ∧
    ¬ LeavesArray call

/-- A call that returns an exact result when `P` holds, and leaves an array
otherwise, reports overflow exactly when `P` holds. -/
theorem reportsOverflow_iff {call : ℕ → Run (BigInteger N)} {r : BigInteger N}
    {x : ℤ} {P : Prop} [Decidable P] {fuel : ℕ}
    (hs : Fuel.Steady .outOfFuel call)
    (hcall : call fuel = if P then .ok r else .error .outOfBounds)
    (hr : P → r.HasDigits ∧ r.value = x) : ReportsOverflow call x ↔ P := by
  constructor
  · intro h
    by_contra hP
    rw [if_neg hP] at hcall
    exact h.2 (.of_error hcall (by decide))
  · intro hP
    rw [if_pos hP] at hcall
    obtain ⟨hreturns, hinside⟩ := returns_not_leavesArray hs hcall
    exact ⟨Or.inl ⟨r, hreturns, hr hP⟩, hinside⟩

/-- No call reports an overflow: a sum or product of non-negative numbers is
exact when it fits, and for a product the lengths may exceed the capacity by
one; otherwise the call leaves an array. -/
theorem reports_overflow_iff {a b : BigInteger N} (ha : a.WellFormed)
    (hb : b.WellFormed) (hpa : a.isPositive = true)
    (hpb : b.isPositive = true) :
    (ReportsOverflow (fun fuel => add fuel a b) (a.value + b.value) ↔
        a.value + b.value < 10 ^ N) ∧
      (ReportsOverflow (fun fuel => mul fuel a b) (a.value * b.value) ↔
        a.len + b.len ≤ N + 1 ∧ a.value * b.value < 10 ^ N) := by
  obtain ⟨m, L, s, hm, rfl⟩ := ha.exists_encode
  obtain ⟨n, K, t, hn, rfl⟩ := hb.exists_encode
  obtain rfl : s = true := by simpa using hpa
  obtain rfl : t = true := by simpa using hpb
  have hL := hm.one_le
  rw [value_encode hm.lt_pow, value_encode hn.lt_pow, if_pos rfl, if_pos rfl,
    encode_len, encode_len]
  constructor
  · have hcond : (m : ℤ) + n < 10 ^ N ↔ m + n < 10 ^ N := by norm_cast
    rw [hcond]
    apply reportsOverflow_iff (add_steady _ _)
      (add_positive (f := 0) hm.le hm.lt hn)
    intro hfits
    refine ⟨encode_hasDigits, ?_⟩
    rw [value_encode hfits, if_pos rfl, Nat.cast_add]
  · have hcond : ((L : ℤ) + K ≤ N + 1 ∧ (m : ℤ) * n < 10 ^ N) ↔
        (L + K - 1 ≤ N ∧ m * n < 10 ^ N) := by
      norm_cast
      omega
    rw [hcond]
    apply reportsOverflow_iff (mul_steady _ _)
      (mul_encode (f := 0) (s := true) (t := true) hm hn)
    rintro ⟨-, hfits⟩
    refine ⟨encode_hasDigits, ?_⟩
    rw [value_encode hfits, Bool.and_true, if_pos rfl, Nat.cast_mul]

theorem fits_nines (hN : 0 < N) : Fits N (10 ^ N - 1) N := by
  have hpow : 1 ≤ 10 ^ N := Nat.one_le_pow _ _ (by omega)
  exact ⟨hN, le_refl N, by omega⟩

/-- With every cell a nine, adding one writes in front of the array. -/
theorem nines_add_one_leavesArray (hN : 0 < N) :
    LeavesArray fun fuel =>
      add fuel (encode N (10 ^ N - 1) N true) (encode N 1 (1 : ℕ) true) := by
  have hnines := fits_nines hN
  have hone : Fits N 1 1 := ⟨le_refl 1, by omega, by norm_num⟩
  have hcall := add_positive (f := 0) hnines.le hnines.lt hone
  have hfull : ¬ (10 ^ N - 1 + 1 < 10 ^ N) := by
    have := hnines.lt
    omega
  rw [if_neg hfull] at hcall
  exact .of_error hcall (by decide)

/-- `10 ^ 500 - 1` and `1`: the sum is not reported. -/
theorem nines_overflow_silent :
    (encode 500 (10 ^ 500 - 1) (500 : ℕ) true).WellFormed ∧
      (encode 500 1 (1 : ℕ) true).WellFormed ∧
      ¬ ReportsOverflow (fun fuel =>
        add fuel (encode 500 (10 ^ 500 - 1) (500 : ℕ) true)
          (encode 500 1 (1 : ℕ) true))
        ((encode 500 (10 ^ 500 - 1) (500 : ℕ) true).value +
          (encode 500 1 (1 : ℕ) true).value) := by
  refine ⟨wellFormed_encode (fits_nines (by omega)),
    wellFormed_encode ⟨by omega, by omega, by norm_num⟩, ?_⟩
  exact fun h => h.2 (nines_add_one_leavesArray (N := 500) (by omega))

/-- `7` and `12` fit. -/
theorem reports_overflow_iff_small :
    (ReportsOverflow
        (fun fuel => add fuel (ofInteger 500 7) (ofInteger 500 12))
        ((ofInteger 500 7).value + (ofInteger 500 12).value) ↔
        (ofInteger 500 7).value + (ofInteger 500 12).value < 10 ^ 500) ∧
      (ReportsOverflow
        (fun fuel => mul fuel (ofInteger 500 7) (ofInteger 500 12))
        ((ofInteger 500 7).value * (ofInteger 500 12).value) ↔
        (ofInteger 500 7).len + (ofInteger 500 12).len ≤ 500 + 1 ∧
          (ofInteger 500 7).value * (ofInteger 500 12).value < 10 ^ 500) := by
  have h7 := (ofInteger_spec (N := 500) (x := 7) 2 (by decide) (by omega)
    (by omega)).1
  have h12 := (ofInteger_spec (N := 500) (x := 12) 2 (by decide) (by omega)
    (by omega)).1
  exact reports_overflow_iff h7.toWellFormed h12.toWellFormed rfl rfl

end BigInteger
end MiscCode
