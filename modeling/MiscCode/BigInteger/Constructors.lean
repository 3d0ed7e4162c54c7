import MiscCode.BigInteger.Encoding

/-!
# The constructors

What `BigInteger(int)` and `BigInteger(string, int)` build, as encoded
numbers.
-/

namespace MiscCode
namespace BigInteger

open Positional

variable {N m k : ℕ} {l : ℤ} {s : Bool}

/-! ## From an `int` -/

/-- One round of the division loop on a non-negative value. -/
theorem int32_div_mod_ten {v : Int32} {V : ℕ} (hv : v.toInt = V) :
    (v % 10).toInt = (V % 10 : ℕ) ∧ (v / 10).toInt = (V / 10 : ℕ) := by
  have hten : (10 : Int32).toInt = 10 := rfl
  constructor
  · rw [Int32.toInt_mod, hv, hten, Int.tmod_eq_emod_of_nonneg (by omega)]
    omega
  · rw [Int32.toInt_div_of_ne_right _ _ (by decide), hv, hten,
      Int.tdiv_eq_ediv_of_nonneg (by omega)]
    omega

/-- The loop with `k` digits of `V` written and `V / 10 ^ k` left to write. -/
theorem intLoop_encode {V : ℕ} {v : Int32} (hV : V < 10 ^ N)
    (hk : k < N) (hv : v.toInt = (V / 10 ^ k : ℕ)) (hrun : k = 0 ∨ 10 ^ k ≤ V) :
    intLoop (N - k) v (encode N (V % 10 ^ k) k s) =
      .ok (encode N V (normalLen V) s) := by
  generalize hj : N - k = j
  induction j generalizing k v with
  | zero => omega
  | succ j ih =>
      obtain ⟨hmod, hdiv⟩ := int32_div_mod_ten hv
      rw [← digit] at hmod
      rw [Nat.div_div_eq_div_mul, ← pow_succ] at hdiv
      have hwrite : (encode N (V % 10 ^ k) k s).write j (v % 10).toInt =
          .ok (encode N (V % 10 ^ (k + 1)) k s) := by
        rw [mod_pow_succ]
        exact write_encode hk (Nat.mod_lt _ (by positivity))
          (digit_le_nine V k) (by omega) hmod
      have hcheck : ¬ ((k : ℤ) > N) := by omega
      simp only [intLoop, hwrite, ok_bind, encode_len, mk_encode,
        if_neg hcheck]
      by_cases hmore : 10 ^ (k + 1) ≤ V
      · have hnext : v / 10 ≠ 0 := by
          intro hzero
          have hpos := Nat.div_pos hmore (by positivity)
          rw [hzero, Int32.toInt_zero] at hdiv
          exact absurd (by exact_mod_cast hdiv.symm) hpos.ne'
        have hkN : k + 1 < N :=
          (Nat.pow_lt_pow_iff_right (by omega)).mp (lt_of_le_of_lt hmore hV)
        rw [if_pos ⟨by omega, hnext⟩]
        exact_mod_cast ih hkN hdiv (Or.inr hmore) (by omega)
      · have hlast : v / 10 = 0 := by
          rw [Nat.div_eq_of_lt (by omega)] at hdiv
          exact Int32.toInt_inj.mp hdiv
        rw [if_neg (by simp [hlast]), Nat.mod_eq_of_lt (by omega),
          normalLen_eq hrun (by omega)]
        push_cast
        rfl

/-- Ten digits hold any `int`. -/
theorem natAbs_toInt_lt (hN : 10 ≤ N) (v : Int32) :
    v.toInt.natAbs < 10 ^ N := by
  have hlow := Int32.le_toInt v
  have hhigh := Int32.toInt_lt v
  have hten : 10 ^ 10 ≤ 10 ^ N := Nat.pow_le_pow_right (by omega) hN
  omega

/-- `BigInteger(int)` on every `int` but the most negative one. -/
theorem ofInt_eq {v : Int32} (hmin : v ≠ Int32.minValue)
    (hN : v.toInt.natAbs < 10 ^ N) (hpos : 0 < N) :
    (ofInt v : Run (BigInteger N)) =
      .ok (encode N v.toInt.natAbs (normalLen v.toInt.natAbs)
        (decide (0 ≤ v.toInt))) := by
  have hsign : (0 ≤ v) ↔ 0 ≤ v.toInt := Int32.le_iff_toInt_le
  have habs : (if decide (0 ≤ v) = true then v else -v).toInt =
      (v.toInt.natAbs / 10 ^ 0 : ℕ) := by
    have hlow := Int32.le_toInt v
    have hhigh := Int32.toInt_lt v
    have hne : v.toInt ≠ -2 ^ 31 := by
      intro h
      exact hmin (Int32.toInt_inj.mp (h.trans Int32.toInt_minValue.symm))
    simp only [decide_eq_true_eq, hsign, pow_zero, Nat.div_one]
    split
    · omega
    · rw [Int32.toInt_neg, Int.bmod_eq_of_le (by omega) (by omega)]
      omega
  have hloop := intLoop_encode (k := 0) (s := decide (0 ≤ v.toInt))
    hN hpos habs (Or.inl rfl)
  simp only [ofInt, fresh_eq_encode, encode_len, mk_encode]
  simpa only [Nat.sub_zero, pow_zero, Nat.mod_one, Nat.cast_zero, hsign]
    using hloop

theorem ofInt_zero (hpos : 0 < N) :
    (ofInt 0 : Run (BigInteger N)) = .ok (encode N 0 1 true) := by
  have h := ofInt_eq (v := 0) (by decide) (by positivity) hpos
  simpa [normalLen] using h

theorem ofInt_one (hpos : 0 < N) :
    (ofInt 1 : Run (BigInteger N)) = .ok (encode N 1 1 true) := by
  have hone : (1 : Int32).toInt = 1 := rfl
  have h := ofInt_eq (v := 1) (by decide)
    (by rw [hone]; exact Nat.one_lt_pow (by omega) (by omega)) hpos
  simpa [hone, normalLen, width] using h

/-- The cells right of the loop's position keep what is there. -/
theorem intLoop_cell {j : ℕ} {v : Int32} {b r : BigInteger N}
    (h : intLoop j v b = .ok r) {i : ℕ} (hji : j ≤ i) (hi : i < N) :
    r.cell i = b.cell i := by
  induction j generalizing v b with
  | zero => exact absurd h Fuel.error_ne_ok
  | succ j ih =>
      simp only [intLoop, Fuel.bind_eq_ok] at h
      obtain ⟨b', hwrite, h⟩ := h
      have hcell := cell_write hwrite i hi
      rw [if_neg (by omega)] at hcell
      split at h
      next => exact absurd h Fuel.error_ne_ok
      next =>
        split at h
        next => rw [ih h (by omega), ← hcell]; rfl
        next =>
          obtain rfl := Except.ok.inj h
          exact hcell

/-- The most negative `int` leaves negative digits. -/
theorem ofInt_minValue_units {r : BigInteger N} (hpos : 0 < N)
    (h : ofInt Int32.minValue = .ok r) : r.cell (N - 1) = -8 := by
  obtain ⟨j, rfl⟩ : ∃ j, N = j + 1 := ⟨N - 1, by omega⟩
  have hsign : ¬ (0 ≤ Int32.minValue) := by decide
  simp only [ofInt, hsign, decide_false, Bool.false_eq_true, if_false, intLoop,
    Fuel.bind_eq_ok] at h
  obtain ⟨b, hwrite, h⟩ := h
  have hcell := cell_write hwrite j (by omega)
  rw [if_pos rfl] at hcell
  have hunits : b.cell j = -8 := by rw [hcell]; decide
  rw [Nat.add_sub_cancel]
  split at h
  next => exact absurd h Fuel.error_ne_ok
  next =>
    split at h
    next => rw [intLoop_cell h (le_refl j) (by omega), ← hunits]; rfl
    next =>
      obtain rfl := Except.ok.inj h
      exact hunits

/-- `BigInteger(int)` returns `v` in decimal: the digits of `|v|` without leading
zeros, its sign, and zeros above the length. -/
def ConstructsInt (N : ℕ) (v : Int32) : Prop :=
  ∃ b : BigInteger N, ofInt v = .ok b ∧ b.HasDigits ∧
    b.len = normalLen v.toInt.natAbs ∧
    (b.isPositive = true ↔ 0 ≤ v.toInt) ∧
    (∀ i : ℕ, (i : ℤ) < N - b.len → b.cell i = 0) ∧
    b.magnitude = |v.toInt|

theorem constructsInt_of_ne (hN : 10 ≤ N) {v : Int32}
    (hmin : v ≠ Int32.minValue) : ConstructsInt N v := by
  have hlt := natAbs_toInt_lt hN v
  have hpos : 0 < N := by omega
  have hfits : Fits N v.toInt.natAbs (normalLen v.toInt.natAbs) :=
    fits_normalLen ((normalLen_le_iff hpos).mpr hlt)
  have hwell := wellFormed_encode (s := decide (0 ≤ v.toInt)) hfits
  refine ⟨_, ofInt_eq hmin hlt hpos, hwell.digits, encode_len, ?_,
    hwell.zero_above, ?_⟩
  · rw [encode_isPositive, decide_eq_true_iff]
  · rw [magnitude_encode hlt, Int.abs_eq_natAbs]

/-- The only `int` the constructor misses is the one without a negation. -/
theorem constructsInt_iff (hN : 10 ≤ N) (v : Int32) :
    ConstructsInt N v ↔ v ≠ Int32.minValue := by
  constructor
  · rintro ⟨b, hb, hdigits, -⟩ rfl
    have hpos : 0 < N := by omega
    have hunits := (hdigits (N - 1) (by omega)).1
    rw [ofInt_minValue_units hpos hb] at hunits
    omega
  · exact constructsInt_of_ne hN

theorem constructsInt_iff_five :
    ConstructsInt 500 (-5) ↔ (-5 : Int32) ≠ Int32.minValue :=
  constructsInt_iff (by decide) (-5)

/-- The most negative `int` is negated to itself, and its digits are
negative. -/
theorem minValue_not_constructed : ¬ ∀ v : Int32, ConstructsInt 500 v := by
  intro h
  obtain ⟨b, hb, hdigits, -⟩ := h Int32.minValue
  have hunits := (hdigits 499 (by decide)).1
  rw [ofInt_minValue_units (by decide) hb] at hunits
  omega

/-- The length test in the newer constructor never fires: the write before it
would already have left the array. -/
theorem older_intLoop_eq {j : ℕ} {v : Int32} {b : BigInteger N}
    (hlen : b.len + j = N) : OlderCopy.intLoop j v b = intLoop j v b := by
  induction j generalizing v b with
  | zero => rfl
  | succ j ih =>
      simp only [OlderCopy.intLoop, intLoop]
      cases hwrite : b.write j (v % 10).toInt with
      | error e => rfl
      | ok b' =>
          have hlen' : b'.len = b.len := len_write hwrite
          have hcheck : ¬ (b'.len > N) := by omega
          simp only [ok_bind, if_neg hcheck]
          rw [ih (by simp only; omega)]

theorem older_ofInt_eq (v : Int32) :
    (OlderCopy.ofInt v : Run (BigInteger N)) = ofInt v :=
  older_intLoop_eq (by simp [fresh])

/-! ## From a string -/

/-- The digit a character stands for. -/
def digitOf (c : Char) : ℕ := c.toNat - '0'.toNat

/-- Only the characters `'0'` to `'9'`. -/
def IsDecimal (cs : List Char) : Prop := ∀ c ∈ cs, '0' ≤ c ∧ c ≤ '9'

instance (cs : List Char) : Decidable (IsDecimal cs) :=
  List.decidableBAll (fun c => '0' ≤ c ∧ c ≤ '9') cs

/-- The natural number a decimal numeral denotes, leading digit first. -/
def numeralValue (cs : List Char) : ℕ :=
  Nat.ofDigits 10 (cs.reverse.map digitOf)

theorem digitOf_spec {c : Char} (hlow : '0' ≤ c) (hhigh : c ≤ '9') :
    digitOf c ≤ 9 ∧ (c.toNat : ℤ) - '0'.toNat = digitOf c := by
  have h0 : 48 ≤ c.toNat := hlow
  have h9 : c.toNat ≤ 57 := hhigh
  have hzero : '0'.toNat = 48 := rfl
  rw [digitOf, hzero]
  omega

theorem numeralValue_lt {cs : List Char} (hcs : IsDecimal cs) :
    numeralValue cs < 10 ^ cs.length := by
  have h := Nat.ofDigits_lt_base_pow_length (b := 10)
    (l := cs.reverse.map digitOf) (by omega) (by
      intro d hd
      obtain ⟨c, hc, rfl⟩ := List.mem_map.mp hd
      have hc := hcs c (List.mem_reverse.mp hc)
      have := (digitOf_spec hc.1 hc.2).1
      omega)
  simpa [numeralValue] using h

/-- The parser with the digits of `m` already stored. -/
theorem parseLoop_encode {cs : List Char} (hcs : IsDecimal cs)
    (hm : m < 10 ^ k) (hlen : k + cs.length ≤ N) :
    parseLoop cs (N - 1 - k) (encode N m l s) =
      .ok (encode N (m + 10 ^ k * Nat.ofDigits 10 (cs.map digitOf)) l s) := by
  induction cs generalizing m k with
  | nil => simp [parseLoop]
  | cons c cs ih =>
      have hc := hcs c (by simp)
      obtain ⟨hnine, hcast⟩ := digitOf_spec hc.1 hc.2
      rw [List.length_cons] at hlen
      have hwrite : (encode N m l s).write (N - 1 - k)
          ((c.toNat : ℤ) - '0'.toNat) =
            .ok (encode N (m + digitOf c * 10 ^ k) l s) :=
        write_encode (by omega) hm hnine rfl hcast
      have hnext : m + digitOf c * 10 ^ k < 10 ^ (k + 1) := by
        have := Nat.mul_le_mul_right (10 ^ k) hnine
        rw [pow_succ]
        omega
      have hindex : (N : ℤ) - 1 - k - 1 = N - 1 - ((k + 1 : ℕ) : ℤ) := by
        push_cast
        ring
      simp only [parseLoop, if_pos hc, hwrite, ok_bind]
      rw [hindex, ih (fun c' hc' => hcs c' (by simp [hc'])) hnext (by omega)]
      congr 2
      rw [List.map_cons, Nat.ofDigits_cons]
      ring

/-- A decimal numeral that fits is read as written, leading zeros included. -/
theorem ofString_eq {cs : List Char} (hcs : IsDecimal cs)
    (hlen : cs.length ≤ N) :
    (ofString cs 10 : Run (BigInteger N)) =
      .ok (encode N (numeralValue cs) cs.length true) := by
  have hsign : cs[0]? ≠ some '-' := by
    intro h
    have := (hcs '-' (List.mem_of_getElem? h)).1
    exact absurd this (by decide)
  have hrev : IsDecimal cs.reverse := fun c hc => hcs c (List.mem_reverse.mp hc)
  have hloop := parseLoop_encode (N := N) (m := 0) (k := 0)
    (l := cs.length) (s := true) hrev (by simp) (by simpa using hlen)
  rw [ofString, if_neg (by omega)]
  simp only [fresh_eq_encode, mk_encode, hsign, ne_eq, not_false_eq_true,
    decide_true, if_true]
  simpa [numeralValue] using hloop

/-- What the parser accepts is decimal. -/
theorem isDecimal_of_parseLoop {cs : List Char} {j : ℤ} {b r : BigInteger N}
    (h : parseLoop cs j b = .ok r) : IsDecimal cs := by
  induction cs generalizing j b with
  | nil => simp [IsDecimal]
  | cons c cs ih =>
      simp only [parseLoop] at h
      split at h
      next hc =>
        obtain ⟨b', -, hrest⟩ := Fuel.bind_eq_ok.mp h
        intro c' hc'
        rcases List.mem_cons.mp hc' with rfl | hc'
        · exact hc
        · exact ih hrest c' hc'
      next => exact absurd h Fuel.error_ne_ok

/-- What the string constructor accepts in base ten is decimal. -/
theorem isDecimal_of_ofString {cs : List Char} {b : BigInteger N}
    (h : ofString cs 10 = .ok b) : IsDecimal cs := by
  simp only [ofString, if_true] at h
  split at h
  next => exact absurd h Fuel.error_ne_ok
  next =>
    intro c hc
    exact isDecimal_of_parseLoop h c (List.mem_reverse.mpr hc)

/-- What the string constructor accepts fits into the array. -/
theorem length_le_of_ofString {cs : List Char} {b : BigInteger N}
    (h : ofString cs 10 = .ok b) : cs.length ≤ N := by
  by_contra hlong
  rw [ofString, if_pos (by omega)] at h
  exact absurd h Fuel.error_ne_ok

/-- On decimal characters the older parser does what the newer one does. -/
theorem older_parseLoop_eq {cs : List Char} (hcs : IsDecimal cs) {j : ℤ}
    {b : BigInteger N} : OlderCopy.parseLoop cs j b = parseLoop cs j b := by
  induction cs generalizing j b with
  | nil => rfl
  | cons c cs ih =>
      have hrest : ∀ (j : ℤ) (b : BigInteger N),
          OlderCopy.parseLoop cs j b = parseLoop cs j b :=
        fun j b => ih fun c' hc' => hcs c' (by simp [hc'])
      simp only [OlderCopy.parseLoop, parseLoop, if_pos (hcs c (by simp)),
        hrest]

/-- Up to the limit of a `short int` the older constructor does too. -/
theorem older_ofString_eq {cs : List Char} (hcs : IsDecimal cs)
    (hlen : cs.length ≤ N) (hshort : cs.length < 32768) :
    (OlderCopy.ofString cs 10 : Run (BigInteger N)) = ofString cs 10 := by
  have hcheck : ¬ (cs.length > N) := by omega
  have hcut : (cs.length : ℤ).bmod 65536 = cs.length :=
    Int.bmod_eq_of_le (by omega) (by omega)
  simp only [OlderCopy.ofString, ofString, if_true, if_neg hcheck, hcut,
    Int.toNat_natCast, List.take_length]
  exact older_parseLoop_eq fun c hc => hcs c (List.mem_reverse.mp hc)

end BigInteger
end MiscCode
