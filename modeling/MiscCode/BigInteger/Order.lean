import MiscCode.BigInteger.Constructors

/-!
# The comparison operators

`operator >` decides by sign, length and first digit alone.  On numbers without
leading zeros that is sound for two non-negative operands but not complete:
it has no answer for two different numbers of equal length with the same first
digit, and it takes no account of the sign when both are negative or only the
right operand is.
-/

namespace MiscCode
namespace BigInteger

open Positional

variable {N m n L K : ℕ} {s t : Bool}

/-! ## Length and first digit -/

/-- What `operator >` finds in the arrays: a greater length, or the same
length and a greater first digit. -/
def Outranks (m L n K : ℕ) : Prop :=
  K < L ∨ (L = K ∧ digit 10 n (L - 1) < digit 10 m (L - 1))

instance : Decidable (Outranks m L n K) :=
  inferInstanceAs (Decidable (_ ∨ _))

/-- Neither number is found greater although they differ. -/
def Clash (m L n K : ℕ) : Prop :=
  m ≠ n ∧ ¬ Outranks m L n K ∧ ¬ Outranks n K m L

instance : Decidable (Clash m L n K) := inferInstanceAs (Decidable (_ ∧ _))

theorem Clash.symm (h : Clash m L n K) : Clash n K m L :=
  ⟨h.1.symm, h.2.2, h.2.1⟩

theorem normalLen_mono (h : m ≤ n) : normalLen m ≤ normalLen n :=
  (normalLen_le_iff (one_le_normalLen n)).mpr
    (lt_of_le_of_lt h (lt_pow_normalLen n))

/-- The first digit of a number of length `L` is its quotient by the weight of
that digit. -/
theorem firstDigit_eq (hL : 1 ≤ L) (hm : m < 10 ^ L) :
    digit 10 m (L - 1) = m / 10 ^ (L - 1) := by
  apply digit_eq_div_of_lt
  rwa [Nat.sub_add_cancel hL]

/-- Without leading zeros, the test finds only greater numbers. -/
theorem lt_of_outranks (h : Outranks m (normalLen m) n (normalLen n)) :
    n < m := by
  by_contra hle
  have hmono := normalLen_mono (Nat.le_of_not_lt hle)
  rcases h with hlen | ⟨hlen, hdigit⟩
  · omega
  · have hn := lt_pow_normalLen n
    rw [← hlen] at hn
    rw [firstDigit_eq (one_le_normalLen m) hn,
      firstDigit_eq (one_le_normalLen m) (lt_pow_normalLen m)] at hdigit
    have := Nat.div_le_div_right (c := 10 ^ (normalLen m - 1))
      (Nat.le_of_not_lt hle)
    omega

/-! ## The operators on encoded numbers -/

theorem gt_encode (hK : 1 ≤ K) (hL : L ≤ N) (hKN : K ≤ N) :
    (encode N m L s).gt (encode N n K t) =
      .ok (decide ((s = true ∨ t = false) ∧ Outranks m L n K)) := by
  have hsign : (!s && t) = true ↔ ¬ (s = true ∨ t = false) := by
    cases s <;> cases t <;> simp
  simp only [gt, encode_isPositive, encode_len]
  by_cases hst : s = true ∨ t = false
  · rw [if_neg (by rw [hsign]; exact not_not_intro hst)]
    by_cases hlen : K < L
    · rw [if_pos (by omega)]
      simp [hst, Outranks, hlen]
    · rw [if_neg (by omega)]
      by_cases heq : L = K
      · subst heq
        have hindex : N - 1 - ((N : ℤ) - L).toNat = L - 1 := by omega
        rw [if_pos rfl, read_encode (by omega) (by omega),
          read_encode (by omega) (by omega), hindex]
        simp [hst, Outranks]
      · rw [if_neg (by omega)]
        simp [Outranks, hlen, heq]
  · rw [if_pos (hsign.mpr hst)]
    simp [hst]

theorem lt_encode (hK : 1 ≤ K) (hL : L ≤ N) (hKN : K ≤ N)
    (hm : m < 10 ^ L) (hn : n < 10 ^ K) :
    (encode N m L s).lt (encode N n K t) =
      .ok (decide (¬ ((s = true ∨ t = false) ∧ Outranks m L n K) ∧
        ¬ (s = t ∧ m = n))) := by
  have hmN : m < 10 ^ N := pow_mono hL hm
  have hnN : n < 10 ^ N := pow_mono hKN hn
  have heq : (encode N m L s).eq (encode N n K t) = decide (s = t ∧ m = n) := by
    rw [Bool.eq_iff_iff, eq_encode_iff hmN hnN, decide_eq_true_iff]
  rw [lt, gt_encode hK hL hKN, ok_bind, heq]
  simp only [Bool.decide_and, decide_not]

/-- Between non-negative numbers. -/
theorem lt_encode_positive (hK : 1 ≤ K) (hL : L ≤ N) (hKN : K ≤ N)
    (hm : m < 10 ^ L) (hn : n < 10 ^ K) :
    (encode N m L true).lt (encode N n K true) =
      .ok (decide (¬ Outranks m L n K ∧ m ≠ n)) := by
  rw [lt_encode hK hL hKN hm hn]
  simp

/-- A negative number is less than a non-negative one. -/
theorem lt_encode_negative (hK : 1 ≤ K) (hL : L ≤ N) (hKN : K ≤ N)
    (hm : m < 10 ^ L) (hn : n < 10 ^ K) :
    (encode N m L false).lt (encode N n K true) = .ok true := by
  rw [lt_encode hK hL hKN hm hn]
  simp

/-- The sign test `b < 0`, also on leading zeros and on a number that has no
digits yet. -/
theorem ltInt_zero_encode (hN : 0 < N) (hL : L ≤ N) (hm : m < 10 ^ L) :
    (encode N m L s).ltInt 0 = .ok (!s) := by
  have hlt := lt_encode (s := s) (t := true) (K := 1) (n := 0)
    (le_refl 1) hL (by omega) hm (by omega)
  rw [Nat.cast_one] at hlt
  rw [ltInt, ofInt_zero hN, ok_bind, hlt]
  cases s with
  | false => simp
  | true =>
      have hfound : m ≠ 0 → Outranks m L 0 1 := by
        intro hm0
        rcases Nat.lt_trichotomy L 1 with h0 | rfl | h1
        · obtain rfl : L = 0 := by omega
          omega
        · refine Or.inr ⟨rfl, ?_⟩
          rw [digit_zero, firstDigit_eq (le_refl 1) hm, Nat.sub_self,
            pow_zero, Nat.div_one]
          omega
        · exact Or.inl h1
      have hzero : ¬ Outranks m L 0 1 → m = 0 :=
        fun h => by_contra fun hne => h (hfound hne)
      simpa using hzero

/-! ## Where the operators are the integer order -/

/-- The three operators return, and answer as the integer order does. -/
def ComparesAsIntegers (a b : BigInteger N) : Prop :=
  ∃ greater less, a.gt b = .ok greater ∧ a.lt b = .ok less ∧
    (greater = true ↔ b.value < a.value) ∧
    (less = true ↔ a.value < b.value) ∧
    (a.eq b = true ↔ a.value = b.value)

/-- `a` is longer, or as long with a greater first digit. -/
def LeadsByFront (a b : BigInteger N) : Prop :=
  b.len < a.len ∨ (a.len = b.len ∧ b.leadingCell < a.leadingCell)

/-- Same length, same first digit. -/
def SameFront (a b : BigInteger N) : Prop :=
  a.len = b.len ∧ a.leadingCell = b.leadingCell

/-- The pairs of operands the comparison is right about. -/
def FrontDecides (a b : BigInteger N) : Prop :=
  match a.isPositive, b.isPositive with
  | false, true => True
  | true, false => LeadsByFront a b
  | true, true => a.value ≤ b.value ∨ LeadsByFront a b
  | false, false => a.value = b.value ∨ (a.value < b.value ∧ SameFront a b)

theorem leadingCell_encode (hL : 1 ≤ L) (hLN : L ≤ N) :
    (encode N m L s).leadingCell = digit 10 m (L - 1) := by
  have hindex : N - 1 - ((N : ℤ) - L).toNat = L - 1 := by omega
  rw [leadingCell, encode_len, cell_encode (by omega), hindex]

theorem leadsByFront_encode (hL : 1 ≤ L) (hLN : L ≤ N) (hK : 1 ≤ K)
    (hKN : K ≤ N) :
    LeadsByFront (encode N m L s) (encode N n K t) ↔ Outranks m L n K := by
  rw [LeadsByFront, leadingCell_encode hL hLN, leadingCell_encode hK hKN]
  simp only [encode_len, Outranks, Nat.cast_lt, Nat.cast_inj]
  constructor
  · rintro (h | ⟨rfl, h⟩)
    · exact Or.inl h
    · exact Or.inr ⟨rfl, h⟩
  · rintro (h | ⟨rfl, h⟩)
    · exact Or.inl h
    · exact Or.inr ⟨rfl, h⟩

theorem sameFront_encode (hL : 1 ≤ L) (hLN : L ≤ N) (hK : 1 ≤ K)
    (hKN : K ≤ N) :
    SameFront (encode N m L s) (encode N n K t) ↔
      ¬ Outranks m L n K ∧ ¬ Outranks n K m L := by
  rw [SameFront, leadingCell_encode hL hLN, leadingCell_encode hK hKN]
  simp only [encode_len, Outranks, Nat.cast_inj]
  constructor
  · rintro ⟨rfl, h⟩
    omega
  · rintro ⟨h1, h2⟩
    obtain rfl : L = K := by omega
    omega

/-- On canonical numbers `==` is exact, and `<` is as good as `>`. -/
theorem comparesAsIntegers_encode (hmN : normalLen m ≤ N)
    (hnN : normalLen n ≤ N) (hs : m = 0 → s = true) (ht : n = 0 → t = true) :
    ComparesAsIntegers (encode N m (normalLen m) s)
        (encode N n (normalLen n) t) ↔
      (((s = true ∨ t = false) ∧ Outranks m (normalLen m) n (normalLen n)) ↔
        (if t then (n : ℤ) else -n) < if s then (m : ℤ) else -m) := by
  have hm : m < 10 ^ N := pow_mono hmN (lt_pow_normalLen m)
  have hn : n < 10 ^ N := pow_mono hnN (lt_pow_normalLen n)
  have heq : (s = t ∧ m = n) ↔
      (if s then (m : ℤ) else -m) = if t then (n : ℤ) else -n := by
    cases s <;> cases t <;> simp_all
  simp only [ComparesAsIntegers, value_encode hm, value_encode hn,
    gt_encode (one_le_normalLen n) hmN hnN,
    lt_encode (one_le_normalLen n) hmN hnN (lt_pow_normalLen m)
      (lt_pow_normalLen n), eq_encode_iff hm hn, heq]
  constructor
  · rintro ⟨greater, less, hgreater, -, hgt, -, -⟩
    rw [← Except.ok.inj hgreater, decide_eq_true_iff] at hgt
    exact hgt
  · intro h
    refine ⟨_, _, rfl, rfl, by rw [decide_eq_true_iff]; exact h, ?_, trivial⟩
    rw [decide_eq_true_iff, h]
    omega

/-- Between non-negative numbers the test is right about the pairs it finds and
about the pairs that are in order. -/
theorem outranks_iff_lt :
    (Outranks m (normalLen m) n (normalLen n) ↔ n < m) ↔
      (m ≤ n ∨ Outranks m (normalLen m) n (normalLen n)) := by
  by_cases hout : Outranks m (normalLen m) n (normalLen n)
  · exact iff_of_true (iff_of_true hout (lt_of_outranks hout)) (Or.inr hout)
  · rw [or_iff_left hout, iff_false_left hout, Nat.not_lt]

/-- Between negative numbers a pair that the test finds is the wrong way
round, so it is right only where neither order is found. -/
theorem outranks_iff_gt :
    (Outranks m (normalLen m) n (normalLen n) ↔ m < n) ↔
      (m = n ∨ (n < m ∧ ¬ Outranks m (normalLen m) n (normalLen n) ∧
        ¬ Outranks n (normalLen n) m (normalLen m))) := by
  by_cases hout : Outranks m (normalLen m) n (normalLen n)
  · have hlt := lt_of_outranks hout
    apply iff_of_false
    · exact fun h => absurd (h.mp hout) (by omega)
    · rintro (heq | ⟨-, hnot, -⟩)
      · omega
      · exact hnot hout
  · have hother : n < m → ¬ Outranks n (normalLen n) m (normalLen m) :=
      fun hlt h => absurd (lt_of_outranks h) (by omega)
    rw [iff_false_left hout]
    constructor
    · intro hle
      rcases Nat.lt_or_ge n m with hlt | hge
      · exact Or.inr ⟨hlt, hout, hother hlt⟩
      · exact Or.inl (by omega)
    · rintro (heq | ⟨hlt, -⟩) <;> omega

/-- The comparison operators are the integer order exactly on the pairs that
sign, length and first digit decide. -/
theorem comparesAsIntegers_iff {a b : BigInteger N} (ha : a.Canonical)
    (hb : b.Canonical) : ComparesAsIntegers a b ↔ FrontDecides a b := by
  obtain ⟨m, s, hmN, hm, hs, rfl⟩ := ha.exists_encode
  obtain ⟨n, t, hnN, hn, ht, rfl⟩ := hb.exists_encode
  rw [comparesAsIntegers_encode hmN hnN hs ht]
  have hleads : LeadsByFront (encode N m (normalLen m) s)
      (encode N n (normalLen n) t) ↔ Outranks m (normalLen m) n (normalLen n) :=
    leadsByFront_encode (one_le_normalLen m) hmN (one_le_normalLen n) hnN
  have hsame := sameFront_encode (m := m) (n := n) (s := s) (t := t)
    (one_le_normalLen m) hmN (one_le_normalLen n) hnN
  cases s with
  | true =>
      cases t with
      | true =>
          simp only [FrontDecides, encode_isPositive, value_encode hm,
            value_encode hn, hleads, if_true, true_or, true_and, Nat.cast_lt,
            Nat.cast_le]
          exact outranks_iff_lt
      | false =>
          have hn0 : n ≠ 0 := fun h => by simp [h] at ht
          have hlt : -(n : ℤ) < m := by omega
          simp [FrontDecides, encode_isPositive, hleads, hlt]
  | false =>
      have hm0 : m ≠ 0 := fun h => by simp [h] at hs
      cases t with
      | true =>
          have hlt : ¬ ((n : ℤ) < -m) := by omega
          simp [FrontDecides, encode_isPositive, hlt]
      | false =>
          simp only [FrontDecides, encode_isPositive, value_encode hm,
            value_encode hn, hsame, Bool.false_eq_true, if_false, or_true,
            true_and, neg_lt_neg_iff, neg_inj, Nat.cast_lt, Nat.cast_inj]
          exact outranks_iff_gt

/-- `13` against `12`: the first digits agree, and `>` does not look further. -/
theorem thirteen_twelve_misjudged :
    (ofInteger 500 13).Canonical ∧ (ofInteger 500 12).Canonical ∧
      ¬ ComparesAsIntegers (ofInteger 500 13) (ofInteger 500 12) := by
  have h13 : normalLen 13 = 2 :=
    normalLen_eq (Or.inr (by norm_num)) (by norm_num)
  have h12 : normalLen 12 = 2 :=
    normalLen_eq (Or.inr (by norm_num)) (by norm_num)
  refine ⟨(ofInteger_spec 2 (by decide) (by omega) (by omega)).1,
    (ofInteger_spec 2 (by decide) (by omega) (by omega)).1, ?_⟩
  have hiff := comparesAsIntegers_encode (N := 500) (m := 13) (n := 12)
    (s := true) (t := true) (by omega) (by omega) (by simp) (by simp)
  have hrank : ¬ Outranks 13 2 12 2 := by decide
  simp only [ofInteger]
  rw [show (13 : ℤ).natAbs = 13 from rfl, show (12 : ℤ).natAbs = 12 from rfl,
    show decide ((0 : ℤ) ≤ 13) = true from rfl,
    show decide ((0 : ℤ) ≤ 12) = true from rfl, hiff, h13, h12]
  simp [hrank]

/-- On `-13` and `12` the operators are right. -/
theorem comparesAsIntegers_iff_neg_thirteen :
    ComparesAsIntegers (ofInteger 500 (-13)) (ofInteger 500 12) ↔
      FrontDecides (ofInteger 500 (-13)) (ofInteger 500 12) :=
  comparesAsIntegers_iff
    (ofInteger_spec 2 (by decide) (by omega) (by omega)).1
    (ofInteger_spec 2 (by decide) (by omega) (by omega)).1

end BigInteger
end MiscCode
