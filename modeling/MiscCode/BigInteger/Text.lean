import MiscCode.BigInteger.Order

/-!
# Printing and parsing

`operator <<` writes the last `len` cells after an optional sign.  The string
constructor reads digits only: it takes the sign flag from a leading `-` and
then rejects that character.  What it accepts, it prints back unchanged.
-/

namespace MiscCode
namespace BigInteger

open Positional

variable {N m n L K : ℕ} {l : ℤ} {s t : Bool}

/-! ## The text of a number -/

/-- The character of a decimal digit. -/
def digitChar (d : ℕ) : Char := Char.ofNat ('0'.toNat + d)

/-- The digits of `m` from weight `10 ^ (w - 1)` down. -/
def numeralText (m : ℕ) : ℕ → List Char
  | 0 => []
  | w + 1 => digitChar (digit 10 m w) :: numeralText m w

theorem length_numeralText (m w : ℕ) : (numeralText m w).length = w := by
  induction w with
  | zero => rfl
  | succ w ih => rw [numeralText, List.length_cons, ih]

theorem toString_digit {d : ℕ} (hd : d ≤ 9) :
    (toString (d : ℤ)).toList = [digitChar d] := by
  interval_cases d <;> rfl

theorem digitChar_spec {d : ℕ} (hd : d ≤ 9) :
    '0' ≤ digitChar d ∧ digitChar d ≤ '9' ∧ digitOf (digitChar d) = d := by
  interval_cases d <;> decide

theorem digitChar_digitOf {c : Char} (hlow : '0' ≤ c) :
    digitChar (digitOf c) = c := by
  have h0 : '0'.toNat ≤ c.toNat := hlow
  rw [digitChar, digitOf, Nat.add_sub_cancel' h0, Char.ofNat_toNat]

theorem numeralText_congr {w : ℕ}
    (h : ∀ v < w, digit 10 m v = digit 10 n v) :
    numeralText m w = numeralText n w := by
  induction w with
  | zero => rfl
  | succ w ih =>
      rw [numeralText, numeralText, h w (Nat.lt_succ_self w),
        ih fun v hv => h v (Nat.lt_succ_of_lt hv)]

theorem printLoop_encode {w : ℕ} (hw : w ≤ N) :
    (encode N m l s).printLoop w = .ok (numeralText m w) := by
  induction w with
  | zero => rfl
  | succ w ih =>
      have hread : (encode N m l s).read (N - (w + 1)) =
          .ok (digit 10 m w : ℤ) := by
        have hweight : N - 1 - ((N : ℤ) - (w + 1)).toNat = w := by omega
        rw [read_encode (by omega) (by omega), hweight]
      rw [printLoop, hread, ok_bind, ih (by omega), ok_bind,
        if_pos (by omega), toString_digit (digit_le_nine m w)]
      rfl

/-- The text shows the last `l` digits; for a length that is not positive it
shows none. -/
theorem text_encode (hl : l ≤ N) :
    (encode N m l s).text =
      .ok ((if s then [] else ['-']) ++ numeralText m l.toNat) := by
  rw [text, encode_len, printLoop_encode (by omega), ok_bind,
    encode_isPositive]

/-- The text of a number whose length covers its digits. -/
theorem text_fits (hm : Fits N m L) :
    (encode N m L s).text =
      .ok ((if s then [] else ['-']) ++ numeralText m L) := by
  rw [text_encode (Int.ofNat_le.mpr hm.le), Int.toNat_natCast]

/-! ## Reading the text back -/

theorem isDecimal_numeralText (m w : ℕ) : IsDecimal (numeralText m w) := by
  induction w with
  | zero => simp [numeralText, IsDecimal]
  | succ w ih =>
      intro c hc
      rcases List.mem_cons.mp hc with rfl | hc
      · have h := digitChar_spec (digit_le_nine m w)
        exact ⟨h.1, h.2.1⟩
      · exact ih c hc

theorem numeralValue_cons (c : Char) (cs : List Char) :
    numeralValue (c :: cs) = numeralValue cs + 10 ^ cs.length * digitOf c := by
  rw [numeralValue, numeralValue, List.reverse_cons, List.map_append,
    Nat.ofDigits_append, List.length_map, List.length_reverse, List.map_cons,
    List.map_nil, Nat.ofDigits_singleton]

theorem numeralValue_numeralText (m w : ℕ) :
    numeralValue (numeralText m w) = m % 10 ^ w := by
  induction w with
  | zero => simp [numeralText, numeralValue, Nat.mod_one]
  | succ w ih =>
      have h := (digitChar_spec (digit_le_nine m w)).2.2
      rw [numeralText, numeralValue_cons, ih, length_numeralText, h,
        mod_pow_succ, Nat.mul_comm]

/-- A numeral is the text of its value, leading zeros included. -/
theorem numeralText_numeralValue {cs : List Char} (hcs : IsDecimal cs) :
    numeralText (numeralValue cs) cs.length = cs := by
  induction cs with
  | nil => rfl
  | cons c cs ih =>
      obtain ⟨hlow, hhigh⟩ := hcs c List.mem_cons_self
      have hrest : IsDecimal cs := fun c' hc' => hcs c' (List.mem_cons_of_mem c hc')
      have hdigit : ∀ v, digit 10 (numeralValue (c :: cs)) v =
          if v = cs.length then digitOf c else digit 10 (numeralValue cs) v := by
        intro v
        have hnine := (digitOf_spec hlow hhigh).1
        rw [numeralValue_cons, Nat.mul_comm]
        exact digit_add_mul_pow (numeralValue_lt hrest) (by omega) v
      have htail : numeralText (numeralValue (c :: cs)) cs.length =
          numeralText (numeralValue cs) cs.length := by
        apply numeralText_congr
        intro v hv
        rw [hdigit, if_neg hv.ne]
      rw [List.length_cons, numeralText, hdigit, if_pos rfl,
        digitChar_digitOf hlow, htail, ih hrest]

/-- `operator <<` shows every significant digit, and at least one. -/
def PrintsWhole (b : BigInteger N) : Prop :=
  ∃ digits, b.text = .ok ((if b.isPositive then [] else ['-']) ++ digits) ∧
    digits ≠ [] ∧ (numeralValue digits : ℤ) = b.magnitude

/-- The representation invariant is what printing relies on. -/
theorem WellFormed.printsWhole {b : BigInteger N} (hb : b.WellFormed) :
    b.PrintsWhole := by
  obtain ⟨m, L, s, hm, rfl⟩ := hb.exists_encode
  refine ⟨numeralText m L, ?_, ?_, ?_⟩
  · rw [text_fits hm, encode_isPositive]
  · intro hnil
    have hlength := length_numeralText m L
    have hone := hm.one_le
    rw [hnil, List.length_nil] at hlength
    omega
  · rw [numeralValue_numeralText, Nat.mod_eq_of_lt hm.lt,
      magnitude_encode hm.lt_pow]

/-- A numeral has no sign. -/
theorem signed_numeralText_inj
    (h : (if s then [] else ['-']) ++ numeralText m L =
      (if t then [] else ['-']) ++ numeralText n K) :
    s = t ∧ numeralText m L = numeralText n K := by
  have hminus : ∀ k w, '-' ∉ numeralText k w := fun k w hmem =>
    absurd (isDecimal_numeralText k w '-' hmem).1 (by decide)
  cases s with
  | true =>
      cases t with
      | true => exact ⟨rfl, h⟩
      | false =>
          have hfirst : numeralText m L = '-' :: numeralText n K := h
          exact absurd (hfirst ▸ List.mem_cons_self) (hminus m L)
  | false =>
      cases t with
      | true =>
          have hfirst : '-' :: numeralText m L = numeralText n K := h
          exact absurd (hfirst ▸ List.mem_cons_self) (hminus n K)
      | false => exact ⟨rfl, List.append_cancel_left h⟩

/-- Numbers of different capacities print the same text exactly when they hold
the same number at the same length and sign. -/
theorem text_eq_iff {M : ℕ} (hm : Fits M m L) (hn : Fits N n K) :
    (encode M m L s).text = (encode N n K t).text ↔ m = n ∧ L = K ∧ s = t := by
  rw [text_fits hm, text_fits hn]
  constructor
  · intro h
    obtain ⟨hsign, htext⟩ := signed_numeralText_inj (Except.ok.inj h)
    have hlength := congrArg List.length htext
    have hvalue := congrArg numeralValue htext
    rw [length_numeralText, length_numeralText] at hlength
    rw [numeralValue_numeralText, numeralValue_numeralText,
      Nat.mod_eq_of_lt hm.lt, Nat.mod_eq_of_lt hn.lt] at hvalue
    exact ⟨hvalue, hlength, hsign⟩
  · rintro ⟨rfl, rfl, rfl⟩
    rfl

/-- The text of `b` is accepted, and the number read compares equal. -/
def RoundTrips (b : BigInteger N) : Prop :=
  ∃ txt p, b.text = .ok txt ∧ ofString txt 10 = .ok p ∧ p.eq b = true

/-- Well-formed numbers survive printing and parsing exactly when they print
without a sign. -/
theorem roundTrips_encode (hm : Fits N m L) :
    RoundTrips (encode N m L s) ↔ s = true := by
  have htext := text_fits (s := s) hm
  constructor
  · rintro ⟨txt, p, htxt, hparse, -⟩
    by_contra hs
    rw [htext, if_neg hs] at htxt
    have hminus : '-' ∈ txt := by
      rw [← Except.ok.inj htxt]
      simp
    have := (isDecimal_of_ofString hparse '-' hminus).1
    exact absurd this (by decide)
  · rintro rfl
    have hparse := ofString_eq (N := N) (isDecimal_numeralText m L)
      (by rw [length_numeralText]; exact hm.le)
    rw [numeralValue_numeralText, Nat.mod_eq_of_lt hm.lt] at hparse
    rw [if_pos rfl] at htext
    exact ⟨_, _, htext, hparse,
      (eq_encode_iff hm.lt_pow hm.lt_pow).mpr ⟨rfl, rfl⟩⟩

/-- Printing then parsing is the identity exactly on the non-negative
numbers. -/
theorem roundTrips_iff {b : BigInteger N} (hb : b.Canonical) :
    RoundTrips b ↔ b.isPositive = true := by
  obtain ⟨m, s, hmN, -, -, rfl⟩ := hb.exists_encode
  exact roundTrips_encode (fits_normalLen hmN)

/-- The text `-1` is rejected. -/
theorem neg_one_not_read_back :
    (ofInteger 500 (-1)).Canonical ∧ (ofInteger 500 (-1)).len ≤ 499 ∧
      ¬ RoundTrips (ofInteger 500 (-1)) := by
  have hlen : normalLen 1 = 1 := normalLen_of_lt_ten (by omega)
  refine ⟨(ofInteger_spec 1 (by decide) (by omega) (by omega)).1, ?_, ?_⟩
  · simp [ofInteger, hlen]
  · intro h
    have hiff := roundTrips_encode (N := 500) (m := 1) (s := false)
      (fits_normalLen (by omega))
    exact absurd (hiff.mp h) (by decide)

/-- `12` is read back. -/
theorem roundTrips_iff_twelve :
    RoundTrips (ofInteger 500 12) ↔ (ofInteger 500 12).isPositive = true :=
  roundTrips_iff (ofInteger_spec 2 (by decide) (by omega) (by omega)).1

/-! ## What the string constructor accepts -/

/-- The parser throws on any other character. -/
theorem parseLoop_throws {cs : List Char} (hcs : ¬ IsDecimal cs) {j : ℤ}
    {b : BigInteger N} (hlen : (cs.length : ℤ) ≤ j + 1) (hj : j < N) :
    parseLoop cs j b =
      .error (.thrown "Invalid digit encountered in number") := by
  induction cs generalizing j b with
  | nil => exact absurd (fun c hc => absurd hc List.not_mem_nil) hcs
  | cons c cs ih =>
      rw [List.length_cons, Nat.cast_succ] at hlen
      unfold parseLoop
      by_cases hc : '0' ≤ c ∧ c ≤ '9'
      · have hrest : ¬ IsDecimal cs := by
          intro h
          apply hcs
          intro c' hc'
          rcases List.mem_cons.mp hc' with rfl | hc'
          · exact hc
          · exact h c' hc'
        have hwrite : ∃ b', b.write j ((c.toNat : ℤ) - '0'.toNat) = .ok b' :=
          ⟨_, if_pos ⟨by omega, hj⟩⟩
        obtain ⟨b', hb'⟩ := hwrite
        rw [if_pos hc, hb', ok_bind]
        exact ih hrest (by omega) (by omega)
      · rw [if_neg hc]

/-- A string that is too long, in another base, or holds a character that is not
a digit. -/
def Rejected (N : ℕ) (cs : List Char) (base : ℤ) : Prop :=
  N < cs.length ∨ base ≠ 10 ∨ ¬ IsDecimal cs

theorem ofString_of_rejected {cs : List Char} {base : ℤ}
    (h : Rejected N cs base) :
    ∃ reason, (ofString cs base : Run (BigInteger N)) =
      .error (.thrown reason) := by
  unfold ofString
  by_cases hlong : cs.length > N
  · exact ⟨_, if_pos hlong⟩
  · rw [if_neg hlong]
    by_cases hbase : base = 10
    · have hcs : ¬ IsDecimal cs :=
        (h.resolve_left hlong).resolve_left fun hne => hne hbase
      have hrev : ¬ IsDecimal cs.reverse :=
        fun hr => hcs fun c hc => hr c (List.mem_reverse.mpr hc)
      simp only [if_pos hbase]
      refine ⟨_, parseLoop_throws hrev ?_ (by omega)⟩
      rw [List.length_reverse]
      omega
    · exact ⟨_, if_neg hbase⟩

/-- The string constructor throws exactly on these strings; any other one is
read as the numeral it is, and printed as it was. -/
theorem ofString_accepts (cs : List Char) (base : ℤ) :
    ((∃ reason, (ofString cs base : Run (BigInteger N)) =
        .error (.thrown reason)) ↔ Rejected N cs base) ∧
    (¬ Rejected N cs base →
      ∃ b : BigInteger N, ofString cs base = .ok b ∧
        b.isPositive = true ∧ b.HasDigits ∧ b.len = cs.length ∧
        b.magnitude = numeralValue cs ∧
        (∀ i : ℕ, (i : ℤ) < N - b.len → b.cell i = 0) ∧
        b.text = .ok cs) := by
  have haccept : ¬ Rejected N cs base → IsDecimal cs ∧ cs.length ≤ N ∧
      (ofString cs base : Run (BigInteger N)) =
        .ok (encode N (numeralValue cs) cs.length true) := by
    intro h
    simp only [Rejected, not_or, not_lt, not_not] at h
    obtain ⟨hlen, rfl, hcs⟩ := h
    exact ⟨hcs, hlen, ofString_eq hcs hlen⟩
  constructor
  · constructor
    · rintro ⟨reason, hthrow⟩
      by_contra h
      rw [(haccept h).2.2] at hthrow
      exact absurd hthrow Fuel.ok_ne_error
    · exact ofString_of_rejected
  · intro h
    obtain ⟨hcs, hlen, hok⟩ := haccept h
    have hlt := numeralValue_lt hcs
    refine ⟨_, hok, encode_isPositive, encode_hasDigits, encode_len,
      magnitude_encode (pow_mono hlen hlt), ?_, ?_⟩
    · intro i hi
      rw [encode_len] at hi
      have hhigh : numeralValue cs < 10 ^ (N - 1 - i) :=
        pow_mono (by omega) hlt
      rw [cell_encode (by omega), digit_eq_zero_of_lt hhigh]
      rfl
    · rw [text_encode (Int.ofNat_le.mpr hlen), Int.toNat_natCast,
        numeralText_numeralValue hcs]
      rfl

end BigInteger
end MiscCode
