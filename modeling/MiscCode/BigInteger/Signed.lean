import MiscCode.BigInteger.Loops

/-!
# Signed addition and subtraction

`operator +` and `operator -` hand signed operands to each other until two
non-negative ones are left, and `operator -` swaps its operands when the first
compares less.  Two numbers that clash compare less both ways, so their
difference is swapped for ever; every other call ends after a few rounds.
-/

namespace MiscCode
namespace BigInteger

open Positional

variable {N m n L K f : ℕ} {s t : Bool}

/-! ## One round of each operator -/

/-- Two non-negative numbers: the carry loop.  The first operand may have no
digits yet. -/
theorem add_positive (hL : L ≤ N) (hm : m < 10 ^ L) (hn : Fits N n K) :
    add (f + 1) (encode N m L true) (encode N n K true) =
      if m + n < 10 ^ N then .ok (encode N (m + n) (sumLen L K (m + n)) true)
      else .error .outOfBounds := by
  rw [add, ltInt_zero_encode hn.pos hn.le hn.lt,
    ltInt_zero_encode hn.pos hL hm]
  exact carryLoop_fresh hn.pos hL hn.le hm hn.lt

theorem add_right_negative (a : BigInteger N) (hn : Fits N n K) :
    add (f + 1) a (encode N n K false) = sub f a (encode N n K true) := by
  rw [add, ltInt_zero_encode hn.pos hn.le hn.lt]
  simp

theorem add_left_negative (hm : Fits N m L) (hn : Fits N n K) :
    add (f + 1) (encode N m L false) (encode N n K true) =
      sub f (encode N n K true) (encode N m L true) := by
  rw [add, ltInt_zero_encode hn.pos hn.le hn.lt,
    ltInt_zero_encode hm.pos hm.le hm.lt]
  simp

theorem sub_right_negative (a : BigInteger N) (hn : Fits N n K) :
    sub (f + 1) a (encode N n K false) =
      add f a (encode N n K true) >>= shrink := by
  rw [sub, ltInt_zero_encode hn.pos hn.le hn.lt]
  simp

/-- The end of a swapped subtraction: negate and shrink. -/
def negateShrink (result : BigInteger N) : Run (BigInteger N) :=
  { result with isPositive := false }.shrink

theorem sub_left_negative (hm : Fits N m L) (hn : Fits N n K) :
    sub (f + 1) (encode N m L false) (encode N n K true) =
      sub f (encode N n K true) (encode N m L false) >>= negateShrink := by
  rw [sub, ltInt_zero_encode hn.pos hn.le hn.lt, ok_bind,
    lt_encode_negative hn.one_le hm.le hn.le hm.lt hn.lt]
  simp only [Bool.not_true, Bool.false_eq_true, if_false, if_true, ok_bind]
  rfl

/-- The first operand compares less: swap and negate. -/
theorem sub_smaller (hm : Fits N m L) (hn : Fits N n K)
    (hrank : ¬ Outranks m L n K) (hne : m ≠ n) :
    sub (f + 1) (encode N m L true) (encode N n K true) =
      sub f (encode N n K true) (encode N m L true) >>= negateShrink := by
  have hless : ¬ Outranks m L n K ∧ m ≠ n := ⟨hrank, hne⟩
  rw [sub, ltInt_zero_encode hn.pos hn.le hn.lt, ok_bind,
    lt_encode_positive hn.one_le hm.le hn.le hm.lt hn.lt]
  simp only [Bool.not_true, Bool.false_eq_true, if_false, if_true, ok_bind,
    hless, not_false_eq_true, ne_eq, and_self, decide_true]
  rfl

/-- What the borrow loop leaves for `m - n`: the difference modulo the
capacity. -/
def wrapSub (N m n : ℕ) : ℕ := (m + (10 ^ N - n)) % 10 ^ N

theorem wrapSub_lt (N m n : ℕ) : wrapSub N m n < 10 ^ N :=
  Nat.mod_lt _ (by positivity)

theorem wrapSub_of_le (hle : n ≤ m) (hmN : m < 10 ^ N) :
    wrapSub N m n = m - n := by
  have hsum : m + (10 ^ N - n) = m - n + 10 ^ N := by omega
  rw [wrapSub, hsum, Nat.add_mod_right, Nat.mod_eq_of_lt (by omega)]

/-- The first operand does not compare less: the borrow loop. -/
theorem sub_not_smaller (hm : Fits N m L) (hn : Fits N n K)
    (hrank : Outranks m L n K ∨ m = n) :
    sub (f + 1) (encode N m L true) (encode N n K true) =
      .ok (encode N (wrapSub N m n) (normalLen (wrapSub N m n)) true) := by
  have hless : ¬ (¬ Outranks m L n K ∧ m ≠ n) := by tauto
  rw [sub, ltInt_zero_encode hn.pos hn.le hn.lt, ok_bind,
    lt_encode_positive hn.one_le hm.le hn.le hm.lt hn.lt,
    borrowLoop_fresh hm.lt_pow hn.lt_pow]
  simp only [Bool.not_true, Bool.false_eq_true, if_false, hless, decide_false,
    ok_bind]
  rw [← wrapSub, shrink_encode (wrapSub_lt N m n),
    shrinkLen_full (wrapSub_lt N m n)]

/-- Clashing operands are swapped under every budget. -/
theorem sub_clash (hm : Fits N m L) (hn : Fits N n K) (h : Clash m L n K)
    (fuel : ℕ) :
    sub fuel (encode N m L true) (encode N n K true) = .error .outOfFuel := by
  induction fuel generalizing m L n K with
  | zero => rw [sub]
  | succ fuel ih =>
      rw [sub_smaller hm hn h.2.1 h.1, ih hn hm h.symm, error_bind]

/-! ## Answers do not depend on the budget -/

theorem add_sub_steadyAt (budget : ℕ) : ∀ a b : BigInteger N,
    Fuel.SteadyAt .outOfFuel budget (fun fuel => add fuel a b) ∧
      Fuel.SteadyAt .outOfFuel budget (fun fuel => sub fuel a b) := by
  induction budget with
  | zero =>
      intro a b
      exact ⟨Fuel.steadyAt_zero (by rw [add]), Fuel.steadyAt_zero (by rw [sub])⟩
  | succ budget ih =>
      intro a b
      constructor
      · apply Fuel.SteadyAt.of_succ (fun n => by rw [add])
        apply Fuel.SteadyAt.bind (Fuel.steadyAt_const _ _)
        intro bNegative
        split
        · exact (ih a b.makePositive).2
        · apply Fuel.SteadyAt.bind (Fuel.steadyAt_const _ _)
          intro aNegative
          split
          · exact (ih b a.makePositive).2
          · exact Fuel.steadyAt_const _ _
      · apply Fuel.SteadyAt.of_succ (fun n => by rw [sub])
        apply Fuel.SteadyAt.bind (Fuel.steadyAt_const _ _)
        intro bNegative
        split
        · exact Fuel.SteadyAt.bind (ih a b.makePositive).1
            fun result => Fuel.steadyAt_const _ _
        · apply Fuel.SteadyAt.bind (Fuel.steadyAt_const _ _)
          intro smaller
          split
          · exact Fuel.SteadyAt.bind (ih b a).2
              fun result => Fuel.steadyAt_const _ _
          · exact Fuel.steadyAt_const _ _

theorem add_steady (a b : BigInteger N) :
    Fuel.Steady .outOfFuel fun fuel => add fuel a b :=
  fun budget => (add_sub_steadyAt budget a b).1

theorem sub_steady (a b : BigInteger N) :
    Fuel.Steady .outOfFuel fun fuel => sub fuel a b :=
  fun budget => (add_sub_steadyAt budget a b).2

/-! ## Results that denote an integer -/

/-- The call returned decimal digits that denote `x`. -/
def Completes (o : Run (BigInteger N)) (x : ℤ) : Prop :=
  ∃ r, o = .ok r ∧ r.HasDigits ∧ r.value = x

theorem completes_encode (hm : m < 10 ^ N) (l : ℤ) :
    Completes (.ok (encode N m l s)) (if s then (m : ℤ) else -m) :=
  ⟨_, rfl, encode_hasDigits, value_encode hm⟩

/-- `shrink` changes neither the digits nor the sign. -/
theorem Completes.shrink {o : Run (BigInteger N)} {x : ℤ}
    (h : Completes o x) : Completes (o >>= shrink) x := by
  obtain ⟨r, rfl, hdigits, rfl⟩ := h
  obtain ⟨m, hm, hr⟩ := hdigits.exists_encode
  rw [ok_bind, hr, shrink_encode hm, value_encode hm]
  exact completes_encode hm _

theorem Completes.negateShrink {o : Run (BigInteger N)} {x : ℤ}
    (h : Completes o x) (hx : 0 ≤ x) :
    Completes (o >>= negateShrink) (-x) := by
  obtain ⟨r, rfl, hdigits, rfl⟩ := h
  obtain ⟨m, hm, hr⟩ := hdigits.exists_encode
  rw [ok_bind, BigInteger.negateShrink, hr]
  simp only [mk_encode]
  rw [shrink_encode hm, value_encode hm]
  rw [hr, value_encode hm] at hx
  have hneg := completes_encode (s := false) hm (shrinkLen N m r.len)
  have hvalue : (if r.isPositive = true then (m : ℤ) else -m) = m := by
    split at hx <;> split <;> omega
  rw [hvalue]
  simpa using hneg

/-! ## Operands without leading zeros -/

section Canonical

variable (hmN : normalLen m ≤ N) (hnN : normalLen n ≤ N)
  (hsum : m + n < 10 ^ N)

include hmN hnN

/-- Without a clash the difference of two non-negative numbers ends after at
most one swap. -/
theorem sub_positive_completes
    (hclash : ¬ Clash m (normalLen m) n (normalLen n)) :
    Completes (sub (f + 2) (encode N m (normalLen m) true)
      (encode N n (normalLen n) true)) ((m : ℤ) - n) := by
  have hm := fits_normalLen hmN
  have hn := fits_normalLen hnN
  by_cases hfront : Outranks m (normalLen m) n (normalLen n) ∨ m = n
  · have hle : n ≤ m := by
      rcases hfront with h | h
      · exact (lt_of_outranks h).le
      · exact h.ge
    rw [sub_not_smaller hm hn hfront, wrapSub_of_le hle hm.lt_pow]
    have h := completes_encode (s := true) (m := m - n)
      (lt_of_le_of_lt (Nat.sub_le m n) hm.lt_pow) (normalLen (m - n))
    rwa [if_pos rfl, Nat.cast_sub hle] at h
  · have hrank : ¬ Outranks m (normalLen m) n (normalLen n) :=
      fun h => hfront (Or.inl h)
    have hne : m ≠ n := fun h => hfront (Or.inr h)
    have hrank' : Outranks n (normalLen n) m (normalLen m) := by
      by_contra h
      exact hclash ⟨hne, hrank, h⟩
    have hlt := lt_of_outranks hrank'
    rw [sub_smaller hm hn hrank hne, sub_not_smaller hn hm (Or.inl hrank'),
      wrapSub_of_le hlt.le hn.lt_pow]
    have h := completes_encode (s := true) (m := n - m)
      (lt_of_le_of_lt (Nat.sub_le n m) hn.lt_pow) (normalLen (n - m))
    rw [if_pos rfl, Nat.cast_sub hlt.le] at h
    have hneg := h.negateShrink (by omega)
    rwa [neg_sub] at hneg

include hsum

theorem add_positive_completes :
    Completes (add (f + 1) (encode N m (normalLen m) true)
      (encode N n (normalLen n) true)) ((m : ℤ) + n) := by
  rw [add_positive hmN (lt_pow_normalLen m) (fits_normalLen hnN), if_pos hsum]
  have h := completes_encode (s := true) hsum (sumLen (normalLen m)
    (normalLen n) (m + n))
  rwa [if_pos rfl, Nat.cast_add] at h

/-- A negative number less a non-negative one: swapped, then added. -/
theorem sub_left_negative_completes :
    Completes (sub (f + 3) (encode N m (normalLen m) false)
      (encode N n (normalLen n) true)) (-(m : ℤ) - n) := by
  have hm := fits_normalLen hmN
  have hn := fits_normalLen hnN
  have h := (add_positive_completes (f := f) hnN hmN
    (by omega)).shrink.negateShrink (by omega)
  rw [sub_left_negative hm hn, sub_right_negative _ hm]
  have hvalue : -((n : ℤ) + m) = -(m : ℤ) - n := by ring
  rwa [hvalue] at h

/-- `operator +` ends and is exact, unless the signs differ and the magnitudes
clash. -/
theorem add_completes
    (h : s = t ∨ ¬ Clash m (normalLen m) n (normalLen n)) :
    Completes (add (f + 4) (encode N m (normalLen m) s)
      (encode N n (normalLen n) t))
      ((if s then (m : ℤ) else -m) + if t then (n : ℤ) else -n) := by
  have hm := fits_normalLen hmN
  have hn := fits_normalLen hnN
  cases t with
  | true =>
      cases s with
      | true => simpa using add_positive_completes hmN hnN hsum
      | false =>
          have hclash : ¬ Clash n (normalLen n) m (normalLen m) :=
            fun hc => (h.resolve_left (by simp)) hc.symm
          rw [add_left_negative hm hn]
          have h := sub_positive_completes (f := f + 1) hnN hmN hclash
          simpa [sub_eq_neg_add] using h
  | false =>
      rw [add_right_negative _ hn]
      cases s with
      | true =>
          have hclash := h.resolve_left (by simp)
          have h := sub_positive_completes (f := f + 1) hmN hnN hclash
          simpa [sub_eq_add_neg] using h
      | false =>
          simpa [sub_eq_add_neg] using
            sub_left_negative_completes (f := f) hmN hnN hsum

/-- `operator -` ends and is exact, unless the signs agree and the magnitudes
clash. -/
theorem sub_completes
    (h : s ≠ t ∨ ¬ Clash m (normalLen m) n (normalLen n)) :
    Completes (sub (f + 4) (encode N m (normalLen m) s)
      (encode N n (normalLen n) t))
      ((if s then (m : ℤ) else -m) - if t then (n : ℤ) else -n) := by
  have hm := fits_normalLen hmN
  have hn := fits_normalLen hnN
  cases t with
  | true =>
      cases s with
      | true =>
          have hclash := h.resolve_left (by simp)
          simpa using sub_positive_completes (f := f + 2) hmN hnN hclash
      | false =>
          simpa using
            sub_left_negative_completes (f := f + 1) hmN hnN hsum
  | false =>
      rw [sub_right_negative _ hn]
      cases s with
      | true =>
          simpa using (add_positive_completes (f := f + 2) hmN hnN
            hsum).shrink
      | false =>
          have hclash : ¬ Clash n (normalLen n) m (normalLen m) :=
            fun hc => (h.resolve_left (by simp)) hc.symm
          rw [add_left_negative hm hn]
          have h := (sub_positive_completes (f := f) hnN hmN
            hclash).shrink
          simpa [sub_eq_neg_add, add_comm] using h

omit hsum

/-- Clashing magnitudes of different signs are never added. -/
theorem add_clash (hst : s ≠ t)
    (h : Clash m (normalLen m) n (normalLen n)) (fuel : ℕ) :
    add fuel (encode N m (normalLen m) s) (encode N n (normalLen n) t) =
      .error .outOfFuel := by
  have hm := fits_normalLen hmN
  have hn := fits_normalLen hnN
  cases fuel with
  | zero => rw [add]
  | succ fuel =>
      cases t with
      | true =>
          obtain rfl : s = false := by simpa using hst
          rw [add_left_negative hm hn, sub_clash hn hm h.symm]
      | false =>
          obtain rfl : s = true := by simpa using hst
          rw [add_right_negative _ hn, sub_clash hm hn h]

/-- Clashing magnitudes of one sign are never subtracted. -/
theorem sub_clash_of_sign_eq (hst : s = t)
    (h : Clash m (normalLen m) n (normalLen n)) (fuel : ℕ) :
    sub fuel (encode N m (normalLen m) s) (encode N n (normalLen n) t) =
      .error .outOfFuel := by
  subst hst
  have hm := fits_normalLen hmN
  have hn := fits_normalLen hnN
  cases s with
  | true => exact sub_clash hm hn h fuel
  | false =>
      cases fuel with
      | zero => rw [sub]
      | succ fuel =>
          rw [sub_right_negative _ hn, add_clash hmN hnN (by simp) h,
            error_bind]

end Canonical

/-! ## Termination and exactness of the two operators -/

theorem Completes.terminates {call : ℕ → Run (BigInteger N)} {x : ℤ}
    (h : Completes (call f) x) : Terminates call := by
  obtain ⟨r, hr, -⟩ := h
  exact ⟨f, by rw [hr]; exact Fuel.ok_ne_error⟩

theorem not_terminates {α : Type} {call : ℕ → Run α}
    (h : ∀ fuel, call fuel = .error .outOfFuel) : ¬ Terminates call :=
  fun ⟨fuel, hfuel⟩ => hfuel (h fuel)

/-- Whatever the call returns denotes `x`, and it stays inside the arrays. -/
def ExactIfReturns (call : ℕ → Run (BigInteger N)) (x : ℤ) : Prop :=
  (∀ r, Returns call r → r.HasDigits ∧ r.value = x) ∧ ¬ LeavesArray call

theorem Completes.exactIfReturns {call : ℕ → Run (BigInteger N)} {x : ℤ}
    (hs : Fuel.Steady .outOfFuel call) (h : Completes (call f) x) :
    ExactIfReturns call x := by
  obtain ⟨r, hr, hdigits, hvalue⟩ := h
  have hends : Returns call r := .of_ok hr
  constructor
  · intro r' hr'
    obtain rfl := Except.ok.inj (hs.unique hends hr')
    exact ⟨hdigits, hvalue⟩
  · intro hleaves
    exact absurd (hs.unique hends hleaves) Fuel.ok_ne_error

theorem exactIfReturns_of_not_terminates {call : ℕ → Run (BigInteger N)}
    (h : ¬ Terminates call) (x : ℤ) : ExactIfReturns call x :=
  ⟨fun _ hr => absurd hr.terminates h, fun hl => h hl.terminates⟩

/-- A canonical number below a tenth of the capacity. -/
theorem Canonical.exists_encode_of_lt {b : BigInteger N} (hb : b.Canonical)
    (hlt : |b.value| < 10 ^ (N - 1)) :
    ∃ m s, normalLen m ≤ N ∧ m < 10 ^ (N - 1) ∧ (m = 0 → s = true) ∧
      b = encode N m (normalLen m) s := by
  obtain ⟨m, s, hmN, hm, hs, rfl⟩ := hb.exists_encode
  refine ⟨m, s, hmN, ?_, hs, rfl⟩
  have habs : |(encode N m (normalLen m) s).value| = m := by
    rw [value_encode hm]
    split
    · exact abs_of_nonneg (by omega)
    · rw [abs_neg]
      exact abs_of_nonneg (by omega)
  rw [habs] at hlt
  exact_mod_cast hlt

theorem add_lt_capacity (hN : 0 < N) (hm : m < 10 ^ (N - 1))
    (hn : n < 10 ^ (N - 1)) : m + n < 10 ^ N := by
  obtain ⟨k, rfl⟩ : ∃ k, N = k + 1 := ⟨N - 1, by omega⟩
  rw [Nat.add_sub_cancel] at hm hn
  rw [pow_succ]
  omega

theorem clash_iff_sameFront (hmN : normalLen m ≤ N) (hnN : normalLen n ≤ N) :
    Clash m (normalLen m) n (normalLen n) ↔
      SameFront (encode N m (normalLen m) s) (encode N n (normalLen n) t) ∧
        (encode N m (normalLen m) s).magnitude ≠
          (encode N n (normalLen n) t).magnitude := by
  rw [sameFront_encode (one_le_normalLen m) hmN (one_le_normalLen n) hnN,
    magnitude_encode (fits_normalLen hmN).lt_pow,
    magnitude_encode (fits_normalLen hnN).lt_pow, Clash, Ne, Ne, Nat.cast_inj]
  tauto

/-- Both operators end on a pair of canonical numbers exactly when these do
not agree in length and first digit while their magnitudes differ. -/
theorem add_sub_terminate_iff {a b : BigInteger N} (ha : a.Canonical)
    (hb : b.Canonical) (hx : |a.value| < 10 ^ (N - 1))
    (hy : |b.value| < 10 ^ (N - 1)) :
    (Terminates (fun fuel => add fuel a b) ∧
        Terminates (fun fuel => sub fuel a b)) ↔
      ¬ (SameFront a b ∧ a.magnitude ≠ b.magnitude) := by
  obtain ⟨m, s, hmN, hm, -, rfl⟩ := ha.exists_encode_of_lt hx
  obtain ⟨n, t, hnN, hn, -, rfl⟩ := hb.exists_encode_of_lt hy
  have hsum := add_lt_capacity (fits_normalLen hmN).pos hm hn
  rw [← clash_iff_sameFront hmN hnN]
  constructor
  · rintro ⟨hadd, hsub⟩ hclash
    by_cases hst : s = t
    · exact not_terminates (sub_clash_of_sign_eq hmN hnN hst hclash) hsub
    · exact not_terminates (add_clash hmN hnN hst hclash) hadd
  · intro hclash
    exact ⟨(add_completes (f := 0) hmN hnN hsum (Or.inr hclash)).terminates,
      (sub_completes (f := 0) hmN hnN hsum (Or.inr hclash)).terminates⟩

/-- `12 - 13` is swapped for ever: both numbers have two digits and start with
the same one. -/
theorem twelve_sub_thirteen_runs_forever :
    (ofInteger 500 12).Canonical ∧ (ofInteger 500 13).Canonical ∧
      |(ofInteger 500 12).value| < 10 ^ 499 ∧
      |(ofInteger 500 13).value| < 10 ^ 499 ∧
      ¬ Terminates fun fuel => sub fuel (ofInteger 500 12) (ofInteger 500 13) := by
  obtain ⟨hc12, -, hlt12⟩ := ofInteger_spec (N := 500) (x := 12) 2
    (by decide) (by omega) (by omega)
  obtain ⟨hc13, -, hlt13⟩ := ofInteger_spec (N := 500) (x := 13) 2
    (by decide) (by omega) (by omega)
  have h12 : normalLen 12 = 2 :=
    normalLen_eq (Or.inr (by norm_num)) (by norm_num)
  have h13 : normalLen 13 = 2 :=
    normalLen_eq (Or.inr (by norm_num)) (by norm_num)
  have hclash : Clash 12 (normalLen 12) 13 (normalLen 13) := by
    rw [h12, h13]
    decide
  refine ⟨hc12, hc13, hlt12 499 (by omega), hlt13 499 (by omega),
    not_terminates ?_⟩
  exact sub_clash_of_sign_eq (N := 500) (m := 12) (n := 13) (by omega)
    (by omega) rfl hclash

/-- `25` and `13` meet the condition. -/
theorem add_sub_terminate_iff_twentyFive :
    (Terminates (fun fuel => add fuel (ofInteger 500 25) (ofInteger 500 13)) ∧
        Terminates
          (fun fuel => sub fuel (ofInteger 500 25) (ofInteger 500 13))) ↔
      ¬ (SameFront (ofInteger 500 25) (ofInteger 500 13) ∧
        (ofInteger 500 25).magnitude ≠ (ofInteger 500 13).magnitude) := by
  obtain ⟨hc25, -, hlt25⟩ := ofInteger_spec (N := 500) (x := 25) 2
    (by decide) (by omega) (by omega)
  obtain ⟨hc13, -, hlt13⟩ := ofInteger_spec (N := 500) (x := 13) 2
    (by decide) (by omega) (by omega)
  exact add_sub_terminate_iff hc25 hc13 (hlt25 499 (by omega))
    (hlt13 499 (by omega))

/-- Whenever `a + b` or `a - b` returns, its digits and sign denote the exact
sum or difference, and no call leaves the arrays. -/
theorem add_sub_exact {a b : BigInteger N} (ha : a.Canonical)
    (hb : b.Canonical) (hx : |a.value| < 10 ^ (N - 1))
    (hy : |b.value| < 10 ^ (N - 1)) :
    ExactIfReturns (fun fuel => add fuel a b) (a.value + b.value) ∧
      ExactIfReturns (fun fuel => sub fuel a b) (a.value - b.value) := by
  obtain ⟨m, s, hmN, hm, -, rfl⟩ := ha.exists_encode_of_lt hx
  obtain ⟨n, t, hnN, hn, -, rfl⟩ := hb.exists_encode_of_lt hy
  have hsum := add_lt_capacity (fits_normalLen hmN).pos hm hn
  rw [value_encode (fits_normalLen hmN).lt_pow,
    value_encode (fits_normalLen hnN).lt_pow]
  constructor
  · by_cases h : s = t ∨ ¬ Clash m (normalLen m) n (normalLen n)
    · exact (add_completes (f := 0) hmN hnN hsum h).exactIfReturns
        (add_steady _ _)
    · push Not at h
      exact exactIfReturns_of_not_terminates
        (not_terminates (add_clash hmN hnN h.1 h.2)) _
  · by_cases h : s ≠ t ∨ ¬ Clash m (normalLen m) n (normalLen n)
    · exact (sub_completes (f := 0) hmN hnN hsum h).exactIfReturns
        (sub_steady _ _)
    · push Not at h
      exact exactIfReturns_of_not_terminates
        (not_terminates (sub_clash_of_sign_eq hmN hnN h.1 h.2)) _

/-- The operands `-25` and `13`. -/
theorem add_sub_exact_neg_twentyFive :
    ExactIfReturns
        (fun fuel => add fuel (ofInteger 500 (-25)) (ofInteger 500 13)) (-12) ∧
      ExactIfReturns
        (fun fuel => sub fuel (ofInteger 500 (-25)) (ofInteger 500 13)) (-38) := by
  obtain ⟨hc25, hv25, hlt25⟩ := ofInteger_spec (N := 500) (x := -25) 2
    (by decide) (by omega) (by omega)
  obtain ⟨hc13, hv13, hlt13⟩ := ofInteger_spec (N := 500) (x := 13) 2
    (by decide) (by omega) (by omega)
  have h := add_sub_exact hc25 hc13 (hlt25 499 (by omega))
    (hlt13 499 (by omega))
  rw [hv25, hv13] at h
  exact h

end BigInteger
end MiscCode
