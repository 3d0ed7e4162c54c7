import MiscCode.BigInteger.Computation

/-!
# The two copies of the class

The copy with 100 digits and the one with 500 digits run the same operators.
They are run side by side on one expression.  Their arrays differ in the number
of zeros above the digits, which is what `shrink` and the wrapped borrow loop
see, so they stay alike exactly as long as `shrink` changes neither number.
-/

namespace MiscCode
namespace BigInteger

open Expression Positional

variable {M N m n L K : ℕ} {s t : Bool}

/-- The older copy with `M` digits, as a machine for expressions. -/
def olderMachine (M : ℕ) : Machine Literal Op Stop (BigInteger M) where
  lit
    | .digits cs => OlderCopy.ofString cs 10
    | .int v => OlderCopy.ofInt v
  op := Op.call

theorem olderMachine_steady (M : ℕ) : (olderMachine M).Steady .outOfFuel :=
  op_steady

/-- Both copies side by side. -/
def copies (M N : ℕ) :
    Machine Literal Op Stop (BigInteger M × BigInteger N) :=
  (olderMachine M).pair (machine N)

/-- Both numbers are well-formed and print the same text. -/
def PrintAlike (p : BigInteger M × BigInteger N) : Prop :=
  p.1.WellFormed ∧ p.2.WellFormed ∧ p.1.text = p.2.text

/-! ## The condition on the operands -/

/-- `shrink` changes neither the number `t` of length `L` in the smaller array
nor the one in the larger array. -/
def Settled (M t L : ℕ) : Prop :=
  t ≠ 0 ∧ (L + width 10 t ≤ M ∨ width 10 t = M)

instance (t : ℕ) : Decidable (Settled M t L) :=
  inferInstanceAs (Decidable (_ ∧ _))

/-- The calls of `operator -` whose borrow loop does not wrap around and whose
results `shrink` leaves alone. -/
def SubSettled (M m L : ℕ) (s : Bool) (n K : ℕ) (t : Bool) : Prop :=
  match s, t with
  | true, true =>
      if Outranks m L n K ∨ m = n then n ≤ m
      else m ≤ n ∧ Settled M (n - m) (normalLen (n - m))
  | true, false => Settled M (m + n) (sumLen L K (m + n))
  | false, true => Settled M (n + m) (sumLen K L (n + m))
  | false, false =>
      if Outranks n K m L ∨ n = m then
        m ≤ n ∧ Settled M (n - m) (normalLen (n - m))
      else n ≤ m ∧ Settled M (m - n) (normalLen (m - n))

/-- The literals and calls on which the copies stay alike. -/
def settledGuard (M N : ℕ) : Guard Literal Op (BigInteger M × BigInteger N) where
  lit
    | .digits cs => cs ≠ [] ∧ cs.length ≤ M
    | .int v => v ≠ Int32.minValue
  op
    | .add => fun p q => OnOperands (ThroughSub (SubSettled M)) p.1 q.1
    | .sub => fun p q => OnOperands (SubSettled M) p.1 q.1
    | .mul => fun _ _ => True

/-! ## Numbers that print alike -/

theorem Fits.mono (hMN : M ≤ N) (h : Fits M m L) : Fits N m L :=
  ⟨h.one_le, le_trans h.le hMN, h.lt⟩

/-- Numbers print alike exactly when they hold the same number at the same
length and sign. -/
theorem printAlike_iff (hMN : M ≤ N) {p : BigInteger M × BigInteger N} :
    PrintAlike p ↔
      ∃ m L s, Fits M m L ∧ p = (encode M m L s, encode N m L s) := by
  constructor
  · rintro ⟨hp, hq, htext⟩
    obtain ⟨m, L, s, hm, hpm⟩ := hp.exists_encode
    obtain ⟨n, K, t, hn, hqn⟩ := hq.exists_encode
    rw [hpm, hqn] at htext
    obtain ⟨rfl, rfl, rfl⟩ := (text_eq_iff hm hn).mp htext
    exact ⟨m, L, s, hm, Prod.ext hpm hqn⟩
  · rintro ⟨m, L, s, hm, rfl⟩
    exact ⟨wellFormed_encode hm, wellFormed_encode (hm.mono hMN),
      (text_eq_iff hm (hm.mono hMN)).mpr ⟨rfl, rfl, rfl⟩⟩

/-- The forms of two numbers that print alike. -/
def Form.Alike (M : ℕ) (F G : Form) : Prop := F = G ∧ F.Covered M

theorem printAlike_number_iff (hMN : M ≤ N) {F G : Form}
    (hF : F.digits < 10 ^ M) (hG : G.digits < 10 ^ N) :
    PrintAlike (F.number M, G.number N) ↔ F.Alike M G := by
  rw [printAlike_iff hMN]
  constructor
  · rintro ⟨m, L, s, hm, heq⟩
    have hFm : F = ⟨m, L, s⟩ :=
      number_inj hF hm.lt_pow (congrArg Prod.fst heq)
    have hGm : G = ⟨m, L, s⟩ :=
      number_inj hG (hm.mono hMN).lt_pow (congrArg Prod.snd heq)
    rw [hFm, hGm]
    exact ⟨rfl, covered_of_fits hm rfl⟩
  · rintro ⟨rfl, hcovered⟩
    obtain ⟨L, hL, hfits⟩ := hcovered.exists_fits
    refine ⟨F.digits, L, F.isPositive, hfits, ?_⟩
    rw [← hL]
    rfl

/-! ## Forms that `shrink` keeps alike -/

theorem shrinkLen_zero (N : ℕ) (l : ℤ) :
    shrinkLen N 0 l = if l = N then 1 else l - N := by
  simp [shrinkLen, width_zero, sub_eq_zero]

/-- In the larger array `shrink` leaves every number of the smaller one alone,
except zero. -/
theorem shrinkLen_larger (hm : Fits M m L) (h2 : 2 * M ≤ N) (hm0 : m ≠ 0) :
    shrinkLen N m L = L := by
  have hwidth := width_le hm.lt
  have hLM := hm.le
  rw [shrinkLen, if_neg]
  omega

theorem settled_iff (hm : Fits M m L) :
    Settled M m L ↔ m ≠ 0 ∧ shrinkLen M m L = L := by
  have hwidth := width_le hm.lt
  have hLM := hm.le
  have hone := hm.one_le
  have hzero := width_eq_zero_iff (m := m)
  rw [Settled, shrinkLen]
  apply and_congr_right
  intro hm0
  split
  next hcut =>
    split
    next => omega
    next => omega
  next => omega

theorem shrink_smaller {F : Form} (hF : Fits M F.digits L) (hL : F.len = L)
    (h : Settled M F.digits L) : F.shrink M = F :=
  Form.ext rfl (by rw [Form.shrink, hL, ((settled_iff hF).mp h).2]) rfl

theorem shrink_larger {F : Form} (hF : Fits M F.digits L) (hL : F.len = L)
    (h2 : 2 * M ≤ N) (hne : F.digits ≠ 0) : F.shrink N = F :=
  Form.ext rfl (by rw [Form.shrink, hL, shrinkLen_larger hF h2 hne]) rfl

/-- A form that is shrunk once. -/
theorem shrink_alike {F : Form} (h2 : 2 * M ≤ N) (hF : Fits M F.digits L)
    (hL : F.len = L) :
    (F.shrink M).Alike M (F.shrink N) ↔ Settled M F.digits L := by
  have hcovered : F.Covered M :=
    covered_of_fits (s := F.isPositive) (l := F.len) hF hL
  constructor
  · rintro ⟨heq, hkept⟩
    have hkeeps := ((covered_shrink hF.pos hF.lt_pow hcovered.2).mp hkept).2
    have hlen : shrinkLen M F.digits F.len = shrinkLen N F.digits F.len :=
      congrArg Form.len heq
    have hne : F.digits ≠ 0 := by
      intro hzero
      -- only a zero of full length is kept, and the larger array cuts it
      have hfull : F.len = M := hkeeps.resolve_right fun h => h.1 hzero
      have hpos := hF.pos
      rw [hzero, hfull, shrinkLen_zero, shrinkLen_zero, if_pos rfl,
        if_neg (by omega)] at hlen
      omega
    rw [hL, shrinkLen_larger hF h2 hne] at hlen
    exact (settled_iff hF).mpr ⟨hne, hlen⟩
  · intro h
    rw [shrink_smaller hF hL h, shrink_larger hF hL h2 h.1]
    exact ⟨rfl, hcovered⟩

/-- A form that is shrunk twice. -/
theorem shrink_twice_alike {F : Form} (hM : 1 < M) (h2 : 2 * M ≤ N)
    (hF : Fits M F.digits L) (hL : F.len = L) :
    ((F.shrink M).shrink M).Alike M ((F.shrink N).shrink N) ↔
      Settled M F.digits L := by
  have hcovered : F.Covered M :=
    covered_of_fits (s := F.isPositive) (l := F.len) hF hL
  constructor
  · rintro ⟨heq, hkept⟩
    have hkeeps :=
      ((covered_shrink_twice hF.pos hF.lt_pow hcovered.2).mp hkept).2
    have hne : F.digits ≠ 0 := by
      intro hzero
      -- a zero of full length is cut to one digit, and that one is cut next
      have hfull : F.len = M := hkeeps.1.resolve_right fun h => h.1 hzero
      have hagain := hkeeps.2.resolve_right fun h => h.1 hzero
      have hone : normalLen 0 = 1 := normalLen_of_lt_ten (by omega)
      rw [if_pos hfull, hzero, hone] at hagain
      omega
    rw [shrink_larger hF hL h2 hne, shrink_larger hF hL h2 hne] at heq
    have hlast : ((F.shrink M).shrink M).len = L := by rw [heq, hL]
    have hfirst : shrinkLen M F.digits L ≤ L := shrinkLen_le hF.pos hF.lt_pow L
    have hsecond : ((F.shrink M).shrink M).len ≤ (F.shrink M).len :=
      shrinkLen_le hF.pos hF.lt_pow _
    have hmiddle : (F.shrink M).len = shrinkLen M F.digits L := by
      rw [Form.shrink, hL]
    exact (settled_iff hF).mpr ⟨hne, by omega⟩
  · intro h
    rw [shrink_smaller hF hL h, shrink_smaller hF hL h,
      shrink_larger hF hL h2 h.1, shrink_larger hF hL h2 h.1]
    exact ⟨rfl, hcovered⟩

/-! ## Differences -/

/-- The borrow loops leave the same digits exactly when they do not wrap
around. -/
theorem wrapSub_eq_iff (hMN : M < N) (hm : m < 10 ^ M) (hn : n < 10 ^ M) :
    wrapSub M m n = wrapSub N m n ↔ n ≤ m := by
  have hmono : 10 ^ M < 10 ^ N := Nat.pow_lt_pow_right (by omega) hMN
  have hten : 10 * 10 ^ M ≤ 10 ^ N := by
    rw [Nat.mul_comm, ← pow_succ]
    exact Nat.pow_le_pow_right (by omega) hMN
  constructor
  · intro h
    by_contra hlt
    have hsmall := wrapSub_lt M m n
    have hlarge : wrapSub N m n = m + (10 ^ N - n) :=
      Nat.mod_eq_of_lt (by omega)
    omega
  · intro hle
    rw [wrapSub_of_le hle hm, wrapSub_of_le hle (by omega)]

theorem wrapForm_of_le (hle : n ≤ m) (hm : m < 10 ^ N) :
    wrapForm N m n s = ⟨m - n, normalLen (m - n), s⟩ := by
  rw [wrapForm, wrapSub_of_le hle hm]

theorem fits_sub (hm : Fits M m L) (n : ℕ) :
    Fits M (m - n) (normalLen (m - n)) :=
  fits_normalLen ((normalLen_le_iff hm.pos).mpr
    (lt_of_le_of_lt (Nat.sub_le m n) hm.lt_pow))

section Differences

variable (hM : 1 < M) (h2 : 2 * M ≤ N) (hm : Fits M m L) (hn : Fits M n K)

include hM h2 hm hn

/-- A difference of either copy, under an operation that keeps the digits. -/
theorem wrapForm_alike {g : ℕ → Form → Form}
    (hg : ∀ k F, (g k F).digits = F.digits) {P : Prop}
    (hsub : n ≤ m → ((g M ⟨m - n, normalLen (m - n), s⟩).Alike M
      (g N ⟨m - n, normalLen (m - n), s⟩) ↔ P)) :
    (g M (wrapForm M m n s)).Alike M (g N (wrapForm N m n s)) ↔
      n ≤ m ∧ P := by
  by_cases hle : n ≤ m
  · rw [wrapForm_of_le hle hm.lt_pow,
      wrapForm_of_le hle (hm.mono (by omega)).lt_pow, hsub hle]
    exact (and_iff_right hle).symm
  · apply iff_of_false
    · rintro ⟨heq, -⟩
      have hdigits := congrArg Form.digits heq
      rw [hg, hg] at hdigits
      exact hle ((wrapSub_eq_iff (by omega) hm.lt_pow hn.lt_pow).mp hdigits)
    · exact fun h => hle h.1

theorem alike_wrapForm :
    (wrapForm M m n s).Alike M (wrapForm N m n s) ↔ n ≤ m := by
  have h := wrapForm_alike (s := s) (g := fun _ F => F) hM h2 hm hn
    (fun _ _ => rfl) (P := True)
    fun _ => iff_true_intro ⟨rfl, covered_of_fits (fits_sub hm n) rfl⟩
  rwa [and_true] at h

theorem alike_wrapForm_shrink :
    ((wrapForm M m n s).shrink M).Alike M ((wrapForm N m n s).shrink N) ↔
      n ≤ m ∧ Settled M (m - n) (normalLen (m - n)) :=
  wrapForm_alike (g := Form.shrink) hM h2 hm hn (fun _ _ => rfl)
    fun _ => shrink_alike h2 (fits_sub hm n) rfl

theorem alike_wrapForm_shrink_twice :
    (((wrapForm M m n s).shrink M).shrink M).Alike M
        (((wrapForm N m n s).shrink N).shrink N) ↔
      n ≤ m ∧ Settled M (m - n) (normalLen (m - n)) :=
  wrapForm_alike (g := fun k F => (F.shrink k).shrink k) hM h2 hm hn
    (fun _ _ => rfl) fun _ => shrink_twice_alike hM h2 (fits_sub hm n) rfl

theorem alike_differenceForm :
    (differenceForm M m L n K).Alike M (differenceForm N m L n K) ↔
      if Outranks m L n K ∨ m = n then n ≤ m
      else m ≤ n ∧ Settled M (n - m) (normalLen (n - m)) := by
  rw [differenceForm, differenceForm]
  split
  next => exact alike_wrapForm hM h2 hm hn
  next => exact alike_wrapForm_shrink hM h2 hn hm

theorem alike_differenceForm_shrink :
    ((differenceForm M m L n K).shrink M).Alike M
        ((differenceForm N m L n K).shrink N) ↔
      if Outranks m L n K ∨ m = n then
        n ≤ m ∧ Settled M (m - n) (normalLen (m - n))
      else m ≤ n ∧ Settled M (n - m) (normalLen (n - m)) := by
  rw [differenceForm, differenceForm]
  split
  next => exact alike_wrapForm_shrink hM h2 hm hn
  next => exact alike_wrapForm_shrink_twice hM h2 hn hm

/-- `operator -` keeps the copies alike exactly on settled operands. -/
theorem alike_subForm (hdigits : (subForm M m L s n K t).digits < 10 ^ M) :
    (subForm M m L s n K t).Alike M (subForm N m L s n K t) ↔
      SubSettled M m L s n K t := by
  cases s with
  | true =>
      cases t with
      | true => exact alike_differenceForm hM h2 hm hn
      | false =>
          exact shrink_alike (F := sumForm m L n K) h2
            (fits_sumLen hm hn hdigits) rfl
  | false =>
      cases t with
      | true =>
          exact shrink_twice_alike (F := (sumForm n K m L).negate) hM h2
            (fits_sumLen hn hm hdigits) rfl
      | false => exact alike_differenceForm_shrink hM h2 hn hm

/-- `operator +` keeps the copies alike exactly on settled operands. -/
theorem alike_addForm (hdigits : (addForm M m L s n K t).digits < 10 ^ M) :
    (addForm M m L s n K t).Alike M (addForm N m L s n K t) ↔
      ThroughSub (SubSettled M) m L s n K t := by
  cases s with
  | true =>
      cases t with
      | true =>
          exact iff_of_true ⟨rfl, covered_sumForm hm hn hdigits⟩ trivial
      | false => exact alike_differenceForm hM h2 hm hn
  | false =>
      cases t with
      | true => exact alike_differenceForm hM h2 hn hm
      | false => exact alike_subForm hM h2 hm hn hdigits

end Differences

/-! ## Expressions on both copies -/

theorem copies_steady (M N : ℕ) : (copies M N).Steady .outOfFuel :=
  pair_steady (olderMachine_steady M) (machine_steady N)

/-- A string literal. -/
theorem printAlike_ofString (hM : M < 32768) (hMN : M ≤ N) {cs : List Char}
    {p : BigInteger M × BigInteger N}
    (hp : OlderCopy.ofString cs 10 = .ok p.1) (hq : ofString cs 10 = .ok p.2) :
    PrintAlike p ↔ cs ≠ [] ∧ cs.length ≤ M := by
  have hcs := isDecimal_of_ofString hq
  have hlen := length_le_of_ofString hq
  have hwell := wellFormed_ofString_iff hq
  constructor
  · intro halike
    refine ⟨hwell.mp halike.2.1, ?_⟩
    obtain ⟨m, L, s, hm, heq⟩ := (printAlike_iff hMN).mp halike
    rw [ofString_eq hcs hlen] at hq
    have hsame := congrArg len ((Except.ok.inj hq).trans (congrArg Prod.snd heq))
    rw [encode_len, encode_len] at hsame
    have := hm.le
    omega
  · rintro ⟨hne, hshort⟩
    rw [older_ofString_eq hcs hshort (by omega), ofString_eq hcs hshort] at hp
    rw [ofString_eq hcs hlen] at hq
    exact (printAlike_iff hMN).mpr ⟨_, _, _,
      ⟨List.length_pos_of_ne_nil hne, hshort, numeralValue_lt hcs⟩,
      Prod.ext (Except.ok.inj hp).symm (Except.ok.inj hq).symm⟩

/-- An `int` literal. -/
theorem printAlike_ofInt (hM : 10 ≤ M) (hMN : M ≤ N) {v : Int32}
    {p : BigInteger M × BigInteger N} (hp : OlderCopy.ofInt v = .ok p.1)
    (hq : ofInt v = .ok p.2) : PrintAlike p ↔ v ≠ Int32.minValue := by
  have hwell := wellFormed_ofInt_iff (le_trans hM hMN) hq
  constructor
  · intro halike
    exact hwell.mp halike.2.1
  · intro hv
    have hlt := natAbs_toInt_lt hM v
    rw [older_ofInt_eq, ofInt_eq hv hlt (by omega)] at hp
    rw [ofInt_eq hv (natAbs_toInt_lt (le_trans hM hMN) v) (by omega)] at hq
    exact (printAlike_iff hMN).mpr ⟨_, _, _,
      fits_normalLen ((normalLen_le_iff (by omega)).mpr hlt),
      Prod.ext (Except.ok.inj hp).symm (Except.ok.inj hq).symm⟩

theorem settledGuard_exact (hM : 10 ≤ M) (hshort : M < 32768)
    (h2 : 2 * M ≤ N) :
    (settledGuard M N).Exact .outOfFuel (copies M N) PrintAlike where
  lit := by
    intro l p hp
    obtain ⟨hp, hq⟩ := lit_pair.mp hp
    cases l with
    | digits cs =>
        simp only [olderMachine] at hp
        exact printAlike_ofString hshort (by omega) hp hq
    | int v => exact printAlike_ofInt hM (by omega) hp hq
  op := by
    intro o p q r hp hq hcall
    have hMN : M ≤ N := by omega
    obtain ⟨m, L, s, hm, rfl⟩ := (printAlike_iff hMN).mp hp
    obtain ⟨n, K, t, hn, rfl⟩ := (printAlike_iff hMN).mp hq
    obtain ⟨⟨-, f, hr⟩, -, f', hr'⟩ :=
      (calls_pair (olderMachine_steady M) (machine_steady N)).mp hcall
    have hmN := hm.mono hMN
    have hnN := hn.mono hMN
    obtain ⟨x, y⟩ := r
    cases o with
    | add =>
        obtain ⟨hdigits, rfl⟩ := add_hasForm hm hn x hr
        obtain ⟨hdigits', rfl⟩ := add_hasForm hmN hnN y hr'
        rw [printAlike_number_iff hMN hdigits hdigits',
          alike_addForm (by omega) h2 hm hn hdigits]
        exact (onOperands_encode hm hn).symm
    | sub =>
        obtain ⟨hdigits, rfl⟩ := sub_hasForm hm hn x hr
        obtain ⟨hdigits', rfl⟩ := sub_hasForm hmN hnN y hr'
        rw [printAlike_number_iff hMN hdigits hdigits',
          alike_subForm (by omega) h2 hm hn hdigits]
        exact (onOperands_encode hm hn).symm
    | mul =>
        obtain ⟨⟨hlen, hprod⟩, rfl⟩ := mul_returned hm hn hr
        obtain ⟨⟨-, hprod'⟩, rfl⟩ := mul_returned hmN hnN hr'
        rw [printAlike_number_iff hMN hprod hprod']
        exact iff_of_true ⟨rfl, covered_mulForm hm hn hlen hprod⟩ trivial

/-- When both copies evaluate an expression, all numbers they obtain are
well-formed and print alike exactly when all literals and calls are settled;
the printed results then agree. -/
theorem copies_print_alike_iff {e : Expression Literal Op}
    {p : BigInteger 100} {q : BigInteger 500}
    (hp : Gives .outOfFuel (olderMachine 100) e p)
    (hq : Gives .outOfFuel (machine 500) e q) :
    (Everywhere .outOfFuel (copies 100 500) PrintAlike e ↔
        Meets .outOfFuel (copies 100 500) (settledGuard 100 500) e) ∧
      (Meets .outOfFuel (copies 100 500) (settledGuard 100 500) e →
        ∃ txt, p.text = .ok txt ∧ q.text = .ok txt) := by
  have hboth : Gives .outOfFuel (copies 100 500) e (p, q) :=
    (gives_pair (olderMachine_steady 100) (machine_steady 500)).mpr ⟨hp, hq⟩
  have hiff := everywhere_iff_meets (copies_steady 100 500)
    (settledGuard_exact (by omega) (by omega) (by omega)) hboth
  refine ⟨hiff, ?_⟩
  intro hmeets
  obtain ⟨hwell, -, htext⟩ := (hiff.mpr hmeets).last hboth
  obtain ⟨digits, hprinted, -⟩ := hwell.printsWhole
  exact ⟨_, hprinted, htext.symm.trans hprinted⟩

/-- `7 + "12"` on both copies. -/
theorem copies_print_alike_iff_seven :
    (Everywhere .outOfFuel (copies 100 500) PrintAlike sevenAddTwelve ↔
        Meets .outOfFuel (copies 100 500) (settledGuard 100 500)
          sevenAddTwelve) ∧
      (Meets .outOfFuel (copies 100 500) (settledGuard 100 500)
          sevenAddTwelve →
        ∃ txt, (encode 100 19 (2 : ℕ) true).text = .ok txt ∧
          (encode 500 19 (2 : ℕ) true).text = .ok txt) := by
  have hint : (OlderCopy.ofInt 7 : Run (BigInteger 100)) =
      .ok (encode 100 7 (1 : ℕ) true) :=
    (older_ofInt_eq 7).trans (ofInt_seven (by omega))
  have hstring : (OlderCopy.ofString ['1', '2'] 10 : Run (BigInteger 100)) =
      .ok (encode 100 12 (2 : ℕ) true) :=
    (older_ofString_eq (by decide) (by decide) (by decide)).trans
      (ofString_twelve (by omega))
  have hp : Gives .outOfFuel (olderMachine 100) sevenAddTwelve
      (encode 100 19 (2 : ℕ) true) :=
    (gives_app (olderMachine_steady 100)).mpr ⟨_, _, gives_lit.mpr hint,
      gives_lit.mpr hstring, .of_ok (n := 1) (add_seven_twelve (by omega))⟩
  exact copies_print_alike_iff hp (gives_sevenAddTwelve (by omega))

/-! ## An expression that prints differently -/

/-- One and 59 zeros. -/
def sixtyDigits : List Char := '1' :: List.replicate 59 '0'

theorem numeralValue_sixtyDigits : numeralValue sixtyDigits = 10 ^ 59 := by
  decide +kernel

theorem fits_sixtyDigits (hN : 60 ≤ N) : Fits N (10 ^ 59) 60 :=
  ⟨by omega, hN, Nat.pow_lt_pow_right (by omega) (by omega)⟩

theorem ofString_sixtyDigits (hN : 60 ≤ N) :
    (ofString sixtyDigits 10 : Run (BigInteger N)) =
      .ok (encode N (10 ^ 59) (60 : ℕ) true) := by
  rw [ofString_eq (by decide) (le_trans (by decide) hN),
    numeralValue_sixtyDigits]
  rfl

/-- The swapped difference has 60 digits, and is shrunk once more. -/
theorem zero_sub_sixtyDigits (hN : 60 ≤ N) :
    sub 2 (encode N 0 (1 : ℕ) true) (encode N (10 ^ 59) (60 : ℕ) true) =
      .ok (encode N (10 ^ 59) (shrinkLen N (10 ^ 59) 60) false) := by
  have hfits := fits_sixtyDigits hN
  have hzero : Fits N 0 1 := ⟨by omega, by omega, by omega⟩
  have hlonger : Outranks (10 ^ 59) 60 0 1 := Or.inl (by omega)
  have hrank : ¬ Outranks 0 1 (10 ^ 59) 60 := by
    rintro (h | ⟨h, -⟩) <;> omega
  have hlen : normalLen (10 ^ 59) = 60 :=
    normalLen_eq (Or.inr le_rfl) hfits.lt
  rw [sub_smaller hzero hfits hrank (by positivity),
    sub_not_smaller hfits hzero (Or.inl hlonger),
    wrapSub_of_le (Nat.zero_le _) hfits.lt_pow, Nat.sub_zero, hlen, ok_bind,
    negateShrink, mk_encode, shrink_encode hfits.lt_pow, encode_len]
  rfl

theorem width_sixtyDigits : width 10 (10 ^ 59) = 60 :=
  width_eq_succ (by omega) le_rfl (Nat.pow_lt_pow_right (by omega) (by omega))

/-- The copy with 100 digits returns a length of 20. -/
theorem older_gives_zero_sub_sixtyDigits :
    Gives .outOfFuel (olderMachine 100)
      (.app .sub (.lit (.int 0)) (.lit (.digits sixtyDigits)))
      (encode 100 (10 ^ 59) 20 false) := by
  have hint : (OlderCopy.ofInt 0 : Run (BigInteger 100)) =
      .ok (encode 100 0 (1 : ℕ) true) :=
    (older_ofInt_eq 0).trans (ofInt_zero (by omega))
  have hstring : (OlderCopy.ofString sixtyDigits 10 : Run (BigInteger 100)) =
      .ok (encode 100 (10 ^ 59) (60 : ℕ) true) :=
    (older_ofString_eq (by decide) (by decide) (by decide)).trans
      (ofString_sixtyDigits (by omega))
  have hlen : shrinkLen 100 (10 ^ 59) 60 = 20 := by
    rw [shrinkLen, width_sixtyDigits]
    norm_num
  have hcall := zero_sub_sixtyDigits (N := 100) (by omega)
  rw [hlen] at hcall
  exact (gives_app (olderMachine_steady 100)).mpr
    ⟨_, _, gives_lit.mpr hint, gives_lit.mpr hstring, .of_ok (n := 2) hcall⟩

/-- The copy with 500 digits returns the full length. -/
theorem gives_zero_sub_sixtyDigits :
    Gives .outOfFuel (machine 500)
      (.app .sub (.lit (.int 0)) (.lit (.digits sixtyDigits)))
      (encode 500 (10 ^ 59) 60 false) := by
  have hint : (ofInt 0 : Run (BigInteger 500)) =
      .ok (encode 500 0 (1 : ℕ) true) := ofInt_zero (by omega)
  have hstring : (ofString sixtyDigits 10 : Run (BigInteger 500)) =
      .ok (encode 500 (10 ^ 59) (60 : ℕ) true) :=
    ofString_sixtyDigits (by omega)
  have hlen : shrinkLen 500 (10 ^ 59) 60 = 60 := by
    rw [shrinkLen, width_sixtyDigits]
    norm_num
  have hcall := zero_sub_sixtyDigits (N := 500) (by omega)
  rw [hlen] at hcall
  exact (gives_app (machine_steady 500)).mpr
    ⟨_, _, gives_lit.mpr hint, gives_lit.mpr hstring, .of_ok (n := 2) hcall⟩

/-- `0 - "1000..."` with 60 digits: the copy with 100 digits takes the 40
zeros above the digits off a length that does not include them, and prints 20
digits; the one with 500 digits sees more zeros than the length and prints
all. -/
theorem zero_sub_sixtyDigits_prints_differently :
    Everywhere .outOfFuel exactMachine (fun x => |x| < 10 ^ 100)
        (.app .sub (.lit (.int 0)) (.lit (.digits sixtyDigits))) ∧
      ∃ p q,
        Gives .outOfFuel (olderMachine 100)
          (.app .sub (.lit (.int 0)) (.lit (.digits sixtyDigits))) p ∧
        Gives .outOfFuel (machine 500)
          (.app .sub (.lit (.int 0)) (.lit (.digits sixtyDigits))) q ∧
        p.len = 20 ∧ q.len = 60 ∧ p.text ≠ q.text := by
  have hvalue : (numeralValue sixtyDigits : ℤ) = 10 ^ 59 := by
    rw [numeralValue_sixtyDigits]
    norm_num
  refine ⟨⟨?_, ?_, ?_⟩, _, _, older_gives_zero_sub_sixtyDigits,
    gives_zero_sub_sixtyDigits, encode_len, encode_len, ?_⟩
  · intro x hx
    have hx : (0 : ℤ) = x := Except.ok.inj hx
    rw [← hx]
    norm_num
  · intro x hx
    have hx : (numeralValue sixtyDigits : ℤ) = x := Except.ok.inj hx
    rw [← hx, hvalue]
    norm_num
  · rintro x ⟨-, _, hx⟩
    have hx : (0 : ℤ) - numeralValue sixtyDigits = x := Except.ok.inj hx
    rw [← hx, hvalue]
    norm_num
  · intro h
    rw [text_encode (by omega), text_encode (by omega)] at h
    have hlength := congrArg List.length (Except.ok.inj h)
    simp [length_numeralText] at hlength

end BigInteger
end MiscCode
