import MiscCode.BigInteger.Product

/-!
# The copies within a product

`appendZeros` shifts a row of `operator *` with `memcpy`, whose two ranges must
not overlap.  The rows of a product are recorded here together with the copies
they make.  A row of `l` digits is shifted by its place `w`, so the ranges are
disjoint exactly when `l` is at most `w`, and the last row is copied onto
itself.
-/

namespace MiscCode
namespace BigInteger

open Positional

variable {N m n k L K : ℕ} {l : ℤ} {s t : Bool}

/-! ## Copies -/

/-- The arguments of a `memcpy` from one place of the array to another. -/
structure Copy where
  dst : ℤ
  src : ℤ
  count : ℤ
  deriving DecidableEq, Repr

/-- Both ranges lie in an array of `N` cells and have none in common. -/
def Copy.Disjoint (N : ℕ) (c : Copy) : Prop :=
  (0 ≤ c.dst ∧ c.dst + c.count ≤ N) ∧ (0 ≤ c.src ∧ c.src + c.count ≤ N) ∧
    (c.dst + c.count ≤ c.src ∨ c.src + c.count ≤ c.dst)

instance (c : Copy) : Decidable (c.Disjoint N) :=
  inferInstanceAs (Decidable (_ ∧ _ ∧ _))

/-- The copy made by `appendZeros`. -/
def zerosCopy (b : BigInteger N) (count : ℤ) : Copy where
  dst := N - b.len - count
  src := N - b.len
  count := b.len

theorem appendZeros_eq (b : BigInteger N) (count : ℤ) :
    b.appendZeros count =
      (b.copyCells (b.zerosCopy count).dst (b.zerosCopy count).src
          (b.zerosCopy count).count >>= fun b' =>
        b'.clearCells (N - count) count >>= fun b' =>
          .ok { b' with len := b'.len + count }) :=
  rfl

/-- The rows of `operator *`, as `rows` builds them, and the copies made up to
the last row or up to the access that leaves an array. -/
def tracedRows (a b : BigInteger N) : ℕ → List Copy × Run (List (BigInteger N))
  | 0 => ([], .ok [])
  | left + 1 =>
      match rowLoop a b (N - (left + 1)) N 0 (fresh N) with
      | .error e => ([], .error e)
      | .ok row =>
          match row.appendZeros left with
          | .error e => ([row.zerosCopy left], .error e)
          | .ok shifted =>
              (row.zerosCopy left :: (tracedRows a b left).1,
                (tracedRows a b left).2 >>= fun rest => .ok (shifted :: rest))

/-- Recording the copies changes nothing. -/
theorem tracedRows_rows (a b : BigInteger N) (left : ℕ) :
    (tracedRows a b left).2 = rows a b left := by
  induction left with
  | zero => rfl
  | succ left ih =>
      unfold tracedRows rows
      cases rowLoop a b (N - (left + 1)) N 0 (fresh N) with
      | error e => rfl
      | ok row =>
          rw [ok_bind]
          cases hshift : row.appendZeros left with
          | error e => simp only [hshift, error_bind]
          | ok shifted => simp only [hshift, ok_bind, ih]

/-- The copies made by `appendZeros` during `a * b`. -/
def mulCopies (a b : BigInteger N) : List Copy :=
  if b.len < 0 then [] else (tracedRows a b b.len.toNat).1

/-! ## The last row -/

/-- The row loop only lengthens its row. -/
theorem rowLoop_len_le {a b r : BigInteger N} {i carry : ℤ} {j : ℕ}
    {row : BigInteger N} (h : rowLoop a b i j carry row = .ok r) :
    row.len ≤ r.len := by
  induction j generalizing carry row with
  | zero =>
      unfold rowLoop at h
      split at h
      · exact absurd h Fuel.error_ne_ok
      · obtain rfl := Except.ok.inj h
        exact le_refl _
  | succ j ih =>
      unfold rowLoop at h
      split at h
      · obtain ⟨y, -, h⟩ := Fuel.bind_eq_ok.mp h
        obtain ⟨x, -, h⟩ := Fuel.bind_eq_ok.mp h
        obtain ⟨row', hwrite, h⟩ := Fuel.bind_eq_ok.mp h
        have hlen : row'.len = row.len := len_write hwrite
        have hrest := ih h
        simp only at hrest
        omega
      · obtain rfl := Except.ok.inj h
        exact le_refl _

/-- The loop goes through its first round when the operand has a length. -/
theorem one_le_rowLoop_len {a b r : BigInteger N} {i : ℤ} (hN : 0 < N)
    (ha : 1 ≤ a.len) (h : rowLoop a b i N 0 (fresh N) = .ok r) :
    1 ≤ r.len := by
  obtain ⟨j, rfl⟩ : ∃ j, N = j + 1 := ⟨N - 1, by omega⟩
  unfold rowLoop at h
  rw [if_pos (Or.inl (by omega))] at h
  obtain ⟨y, -, h⟩ := Fuel.bind_eq_ok.mp h
  obtain ⟨x, -, h⟩ := Fuel.bind_eq_ok.mp h
  obtain ⟨row, hwrite, h⟩ := Fuel.bind_eq_ok.mp h
  have hlen : row.len = (fresh (j + 1)).len := len_write hwrite
  have hfresh : (fresh (j + 1)).len = 0 := rfl
  have hrest := rowLoop_len_le h
  simp only at hrest
  omega

/-- A row that is copied onto itself. -/
theorem zerosCopy_zero_not_disjoint {b : BigInteger N} (hb : 1 ≤ b.len) :
    ¬ (b.zerosCopy 0).Disjoint N := by
  rintro ⟨-, -, h⟩
  simp only [zerosCopy] at h
  omega

/-- When all rows are built, the last one was copied onto itself. -/
theorem tracedRows_overlap {a b : BigInteger N} (hN : 0 < N) (ha : 1 ≤ a.len)
    {left : ℕ} {built : List (BigInteger N)}
    (h : rows a b (left + 1) = .ok built) :
    ∃ c ∈ (tracedRows a b (left + 1)).1, ¬ c.Disjoint N := by
  induction left generalizing built with
  | zero =>
      obtain ⟨row, hrow, h⟩ := Fuel.bind_eq_ok.mp h
      obtain ⟨shifted, hshift, -⟩ := Fuel.bind_eq_ok.mp h
      refine ⟨row.zerosCopy 0, ?_, ?_⟩
      · unfold tracedRows
        simp only [hrow, hshift]
        exact List.mem_cons_self
      · exact zerosCopy_zero_not_disjoint (one_le_rowLoop_len hN ha hrow)
  | succ left ih =>
      obtain ⟨row, hrow, h⟩ := Fuel.bind_eq_ok.mp h
      obtain ⟨shifted, hshift, h⟩ := Fuel.bind_eq_ok.mp h
      obtain ⟨rest, hrest, -⟩ := Fuel.bind_eq_ok.mp h
      obtain ⟨c, hc, hoverlap⟩ := ih hrest
      refine ⟨c, ?_, hoverlap⟩
      unfold tracedRows
      simp only [hrow, hshift]
      exact List.mem_cons_of_mem _ hc

/-! ## Where a product stops -/

/-- A call that returns, or stops outside an array. -/
def OnlyLeaves {α : Type} (x : Run α) : Prop :=
  ∀ e, x = .error e → e = .outOfBounds

theorem OnlyLeaves.bind {α β : Type} {x : Run α} {f : α → Run β}
    (hx : OnlyLeaves x) (hf : ∀ y, OnlyLeaves (f y)) :
    OnlyLeaves (x >>= f) := by
  cases x with
  | error e =>
      intro e' h
      rw [error_bind] at h
      obtain rfl := Except.error.inj h
      exact hx e rfl
  | ok y => exact hf y

theorem onlyLeaves_ok {α : Type} (x : α) : OnlyLeaves (.ok x) := nofun

theorem onlyLeaves_outOfBounds {α : Type} :
    OnlyLeaves (.error .outOfBounds : Run α) :=
  fun _ h => (Except.error.inj h).symm

theorem onlyLeaves_ite {α : Type} {p : Prop} [Decidable p] {x y : Run α}
    (hx : OnlyLeaves x) (hy : OnlyLeaves y) :
    OnlyLeaves (if p then x else y) := by
  split
  · exact hx
  · exact hy

theorem onlyLeaves_rowLoop (a b : BigInteger N) (i : ℤ) (j : ℕ) (carry : ℤ)
    (row : BigInteger N) : OnlyLeaves (rowLoop a b i j carry row) := by
  induction j generalizing carry row with
  | zero => exact onlyLeaves_ite onlyLeaves_outOfBounds (onlyLeaves_ok row)
  | succ j ih =>
      have hread : ∀ (c : BigInteger N) i, OnlyLeaves (c.read i) :=
        fun _ _ => onlyLeaves_ite (onlyLeaves_ok _) onlyLeaves_outOfBounds
      have hwrite : ∀ v, OnlyLeaves (row.write j v) :=
        fun _ => onlyLeaves_ite (onlyLeaves_ok _) onlyLeaves_outOfBounds
      apply onlyLeaves_ite _ (onlyLeaves_ok row)
      refine (hread b i).bind fun y => (hread a j).bind fun x => ?_
      exact (hwrite _).bind fun row' => ih _ _

theorem onlyLeaves_appendZeros (b : BigInteger N) (count : ℤ) :
    OnlyLeaves (b.appendZeros count) := by
  have hcopy : ∀ dst src n, OnlyLeaves (b.copyCells dst src n) :=
    fun _ _ _ => onlyLeaves_ite (onlyLeaves_ok b)
      (onlyLeaves_ite (onlyLeaves_ok _) onlyLeaves_outOfBounds)
  have hclear : ∀ (c : BigInteger N) dst n, OnlyLeaves (c.clearCells dst n) :=
    fun c _ _ => onlyLeaves_ite (onlyLeaves_ok c)
      (onlyLeaves_ite (onlyLeaves_ok _) onlyLeaves_outOfBounds)
  exact (hcopy _ _ _).bind fun c => (hclear c _ _).bind
    fun _ => onlyLeaves_ok _

theorem onlyLeaves_rows (a b : BigInteger N) (left : ℕ) :
    OnlyLeaves (rows a b left) := by
  induction left with
  | zero => exact onlyLeaves_ok []
  | succ left ih =>
      refine (onlyLeaves_rowLoop a b _ N 0 (fresh N)).bind fun row => ?_
      refine (onlyLeaves_appendZeros row left).bind fun shifted => ?_
      exact ih.bind fun rest => onlyLeaves_ok _

/-- A product that does not leave an array builds all its rows. -/
theorem rows_of_not_leavesArray {a b : BigInteger N} (hb : 0 ≤ b.len)
    (h : ¬ LeavesArray fun fuel => mul fuel a b) :
    ∃ built, rows a b b.len.toNat = .ok built := by
  cases hrows : rows a b b.len.toNat with
  | ok built => exact ⟨built, rfl⟩
  | error e =>
      obtain rfl := onlyLeaves_rows a b b.len.toNat e hrows
      have hmul : mul 0 a b = .error .outOfBounds := by
        unfold mul
        rw [if_neg (by omega), hrows, error_bind]
      exact absurd (Fuel.EndsIn.of_error hmul (by decide)) h

/-! ## Which copies overlap -/

/-- The copies of the rows of `m * n`, from the first digit down. -/
def copyList (N m L n : ℕ) : ℕ → List Copy
  | 0 => []
  | w + 1 =>
      { dst := N - rowLen L (digit 10 n w * m) - w
        src := N - rowLen L (digit 10 n w * m)
        count := rowLen L (digit 10 n w * m) } :: copyList N m L n w

theorem rowFits_of_lengths (hlen : L + K ≤ N) {w : ℕ} (hw : w < K) :
    RowFits N m L n w := by
  have hrow := rowLen_le L (digit 10 n w * m)
  unfold RowFits
  omega

/-- The copies of a product of numbers with decimal digits. -/
theorem tracedRows_encode (hm : Fits N m L) (hlen : L + K ≤ N) {w : ℕ} (hw : w ≤ K) :
    (tracedRows (encode N m L s) (encode N n K t) w).1 = copyList N m L n w := by
  induction w with
  | zero => rfl
  | succ w ih =>
      have hd := digit_le_nine n w
      have hread : (encode N n K t).read (N - (w + 1)) =
          .ok (digit 10 n w : ℤ) := by
        have hindex : (N : ℤ) - (w + 1) = ((N - (w + 1) : ℕ) : ℤ) := by omega
        rw [hindex]
        exact read_weight (by omega)
      have hfits : RowFits N m L n w := rowFits_of_lengths hlen hw
      have hrowLen : rowLen L (digit 10 n w * m) ≤ N := by
        unfold RowFits at hfits
        omega
      have hp := lt_pow_rowLen hd hm.lt
      have hrow := rowLoop_fresh (s := s) hread hd hm
      rw [if_pos (pow_mono hrowLen hp)] at hrow
      have hone := le_trans hm.one_le (le_rowLen L (digit 10 n w * m))
      have hshift := appendZeros_encode (s := true) ⟨hone, hrowLen, hp⟩ w
      rw [if_pos (show rowLen L (digit 10 n w * m) + w ≤ N from hfits)] at hshift
      unfold tracedRows copyList
      simp only [hrow, hshift, ih (by omega), zerosCopy, encode_len]

theorem mulCopies_encode (hm : Fits N m L) (hlen : L + K ≤ N) :
    mulCopies (encode N m L s) (encode N n K t) = copyList N m L n K := by
  unfold mulCopies
  rw [encode_len, if_neg (by omega), Int.toNat_natCast,
    tracedRows_encode hm hlen (le_refl K)]

/-- The copy of the row at place `w` is one between disjoint ranges exactly when
the row has at most `w` digits. -/
theorem copy_disjoint_iff (hm : Fits N m L) (hlen : L + K ≤ N) {w : ℕ}
    (hw : w < K) :
    Copy.Disjoint N
        { dst := N - rowLen L (digit 10 n w * m) - w
          src := N - rowLen L (digit 10 n w * m)
          count := rowLen L (digit 10 n w * m) } ↔
      rowLen L (digit 10 n w * m) ≤ w := by
  have hfits : RowFits N m L n w := rowFits_of_lengths hlen hw
  have hone := le_trans hm.one_le (le_rowLen L (digit 10 n w * m))
  unfold RowFits at hfits
  constructor
  · rintro ⟨-, -, h⟩
    simp only at h
    omega
  · intro h
    refine ⟨⟨?_, ?_⟩, ⟨?_, ?_⟩, Or.inl ?_⟩ <;> simp only <;> omega

/-- No product keeps to the rule of `memcpy`: a call that stays inside its
arrays makes a copy that overlaps, and numbers with decimal digits always
do. -/
theorem mul_copies_overlap (a b : BigInteger N) (ha : 1 ≤ a.len)
    (hb : 1 ≤ b.len) (hlen : a.len + b.len ≤ N) :
    ((¬ LeavesArray fun fuel => mul fuel a b) →
      ¬ ∀ c ∈ mulCopies a b, c.Disjoint N) ∧
    (a.WellFormed → b.WellFormed → ¬ ∀ c ∈ mulCopies a b, c.Disjoint N) := by
  have hN : 0 < N := by omega
  obtain ⟨left, hleft⟩ : ∃ left, b.len.toNat = left + 1 :=
    ⟨b.len.toNat - 1, by omega⟩
  have hcopies : mulCopies a b = (tracedRows a b (left + 1)).1 := by
    unfold mulCopies
    rw [if_neg (by omega), hleft]
  have hoverlap : ∀ built, rows a b b.len.toNat = .ok built →
      ¬ ∀ c ∈ mulCopies a b, c.Disjoint N := by
    intro built hrows hall
    rw [hleft] at hrows
    obtain ⟨c, hc, hnot⟩ := tracedRows_overlap hN ha hrows
    exact hnot (hall c (hcopies ▸ hc))
  constructor
  · intro hstays
    obtain ⟨built, hrows⟩ := rows_of_not_leavesArray (by omega) hstays
    exact hoverlap built hrows
  · intro hwa hwb
    obtain ⟨m, L, s, hm, rfl⟩ := hwa.exists_encode
    obtain ⟨n, K, t, hn, rfl⟩ := hwb.exists_encode
    simp only [encode_len] at hlen hoverlap
    have hrows := rows_encode (s := s) (t := t) hm hn (le_refl K)
    rw [if_pos fun v hv => rowFits_of_lengths (by omega) hv] at hrows
    exact hoverlap _ (by rw [Int.toNat_natCast]; exact hrows)

theorem fits_twelve : Fits 500 12 2 :=
  ⟨by omega, by omega, by norm_num⟩

theorem mul_copies_overlap_twelve :
    ((¬ LeavesArray fun fuel =>
        mul fuel (encode 500 12 2 true) (encode 500 12 2 true)) →
      ¬ ∀ c ∈ mulCopies (encode 500 12 2 true) (encode 500 12 2 true),
        c.Disjoint 500) ∧
    ((encode 500 12 2 true).WellFormed → (encode 500 12 2 true).WellFormed →
      ¬ ∀ c ∈ mulCopies (encode 500 12 2 true) (encode 500 12 2 true),
        c.Disjoint 500) :=
  mul_copies_overlap (encode 500 12 2 true) (encode 500 12 2 true)
    (by rw [encode_len]; decide) (by rw [encode_len]; decide)
    (by rw [encode_len]; decide)

/-- In `12 * 12` the row of the first digit moves from `498..499` to
`497..498`. -/
theorem twelve_mul_twelve_copies_overlap :
    ¬ ∀ a b : BigInteger 500, a.WellFormed → b.WellFormed → 1 ≤ a.len →
      1 ≤ b.len → a.len + b.len ≤ 500 →
        ∀ c ∈ mulCopies a b, c.Disjoint 500 := by
  intro h
  have hwell : (encode 500 12 2 true).WellFormed := wellFormed_encode fits_twelve
  have hlen : (encode 500 12 2 true).len = 2 := encode_len
  have hcopies : mulCopies (encode 500 12 2 true) (encode 500 12 2 true) =
      copyList 500 12 2 12 2 :=
    mulCopies_encode (K := 2) fits_twelve (by decide)
  have hall := h _ _ hwell hwell (by omega) (by omega) (by omega)
  rw [hcopies] at hall
  have hfirst := hall ⟨497, 498, 2⟩ (by decide)
  exact absurd hfirst (by decide)

end BigInteger
end MiscCode
