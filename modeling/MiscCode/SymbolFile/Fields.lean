import MiscCode.SymbolFile.Model

/-!
# The fields of a line

`Tokenize` finds as many words as are wanted but one, and takes what is left of
the line for the last token.  A line written from its fields is read back, and
what the readers of numbers accept is in range.
-/

namespace MiscCode
namespace SymbolFile

open CallFrameInfo Strto Words

/-! ## `Tokenize` -/

section Tokenize

variable {separators : Char → Bool} {line rest : Text} {tokens : List Text}
  {n : ℕ}

theorem tokenizeLoop_none (remaining : ℕ) (rest : Text) :
    tokenizeLoop separators (remaining + 1) none rest =
      ([], remaining + 1, rest) :=
  rfl

/-- The loop, when there are as many tokens as it looks for. -/
theorem tokenizeLoop_of_nexts (h : nexts separators n rest = some (tokens, line))
    (token : Text) :
    tokenizeLoop separators (n + 2) (some token) rest =
      (token :: tokens, 0, line) := by
  induction n generalizing rest tokens token with
  | zero =>
      obtain ⟨rfl, rfl⟩ := Prod.mk.inj (Option.some.inj h)
      rfl
  | succ n ih =>
      obtain ⟨w, ws, behind, rfl, hread, hreads⟩ := nexts_succ_eq_some_iff.mp h
      rw [tokenizeLoop, if_neg (by omega), if_pos (by omega)]
      simp only [hread, ih hreads w]

/-- The loop, when there are too few tokens. -/
theorem tokenizeLoop_of_none (h : nexts separators n rest = none)
    (token : Text) :
    ∃ found missing, tokenizeLoop separators (n + 2) (some token) rest =
      (found, missing + 1, []) ∧ found.length < n + 2 := by
  induction n generalizing rest token with
  | zero => cases h
  | succ n ih =>
      rw [tokenizeLoop, if_neg (by omega), if_pos (by omega)]
      cases hread : next separators rest with
      | none =>
          exact ⟨[token], n + 1, by simp [tokenizeLoop_none], by simp⟩
      | some read =>
          obtain ⟨w, behind⟩ := read
          have hreads : nexts separators n behind = none := by
            cases hreads : nexts separators n behind with
            | none => rfl
            | some found => simp [nexts, hread, hreads] at h
          obtain ⟨found, missing, hloop, hlength⟩ := ih hreads w
          refine ⟨token :: found, missing, ?_, by simpa using hlength⟩
          simp only [hloop]

/-- A line is split exactly when it has the words that are wanted but one, and
something behind them that is the last token. -/
theorem tokenize_eq_true_iff : tokenize line separators (n + 2) = (true, tokens) ↔
    ∃ ws behind last left, nexts separators (n + 1) line = some (ws, behind) ∧
      next isLineEnd behind = some (last, left) ∧ tokens = ws ++ [last] := by
  cases hread : next separators line with
  | none =>
      have hnone : nexts separators (n + 1) line = none := by
        simp [nexts, hread]
      simp [tokenize, hread, tokenizeLoop_none, hnone]
  | some read =>
      obtain ⟨w, behind⟩ := read
      cases hreads : nexts separators n behind with
      | none =>
          obtain ⟨found, missing, hloop, hlength⟩ :=
            tokenizeLoop_of_none hreads w
          have hnone : nexts separators (n + 1) line = none := by
            simp [nexts, hread, hreads]
          simp [tokenize, hread, hloop, hnone, hlength.ne]
      | some found =>
          obtain ⟨ws, left⟩ := found
          have hsome : nexts separators (n + 1) line = some (w :: ws, left) :=
            nexts_succ_eq_some_iff.mpr ⟨w, ws, behind, rfl, hread, hreads⟩
          have hlength := length_of_nexts hreads
          have hloop := tokenizeLoop_of_nexts hreads w
          cases hlast : next isLineEnd left with
          | none => simp [tokenize, hread, hloop, hsome, hlast, hlength]
          | some found =>
              obtain ⟨last, behind'⟩ := found
              simp [tokenize, hread, hloop, hsome, hlast, hlength, eq_comm]

end Tokenize

/-! ## Writing fields -/

/-- A line with the words of some fields and the text of the last one. -/
def writeFields (fields : List Text) (last : Text) : Text :=
  fields.flatMap (· ++ [' ']) ++ last

theorem tokenize_writeFields (field : Text) (fields : List Text) {last : Text}
    (hfields : ∀ word ∈ field :: fields, IsWord isWhitespace word)
    (hlast : IsWord isLineEnd last) :
    tokenize (writeFields (field :: fields) last) isWhitespace
        (fields.length + 2) = (true, field :: fields ++ [last]) :=
  tokenize_eq_true_iff.mpr ⟨field :: fields, last, last, [],
    nexts_flatMap (by decide) hfields last, next_isWord hlast, rfl⟩

/-- What was split has its last token from the line, with no line end in it. -/
theorem last_of_tokenize {line : Text} {n : ℕ} {ws : List Text} {last : Text}
    (h : tokenize line isWhitespace (n + 2) = (true, ws ++ [last])) :
    IsWord isLineEnd last ∧ ∀ c ∈ last, c ∈ line := by
  obtain ⟨ws', behind, last', left, hreads, hread, heq⟩ :=
    tokenize_eq_true_iff.mp h
  obtain ⟨-, hlast⟩ := List.append_inj' heq rfl
  obtain rfl := List.singleton_inj.mp hlast
  exact ⟨(next_cases hread).1, fun c hc =>
    mem_of_nexts hreads (mem_of_next hread (.inl hc))⟩

/-! ## Numbers -/

/-- An address or a size. -/
def writeUnsigned (w : UInt64) : Text := Nat.toDigits 16 w.toNat

/-- A number that is not below zero. -/
def writeNatural (base : ℕ) (i : ℤ) : Text := Nat.toDigits base i.toNat

/-- What `natural?` lets through. -/
def Natural (i : ℤ) : Prop := 0 ≤ i ∧ i < longMax

/-- What `unsigned?` lets through. -/
def Unsigned (w : UInt64) : Prop := w ≠ UInt64.ofNat (2 ^ 64 - 1)

instance (i : ℤ) : Decidable (Natural i) := inferInstanceAs (Decidable (_ ∧ _))

instance (w : UInt64) : Decidable (Unsigned w) := inferInstanceAs (Decidable (_ ≠ _))

theorem isSpace_of_isWhitespace {c : Char} (h : isWhitespace c = true) :
    isSpace c = true := by
  have hmem := of_decide_eq_true h
  simp only [List.mem_cons, List.not_mem_nil, or_false] at hmem
  rcases hmem with rfl | rfl | rfl
  all_goals rfl

theorem isWhitespace_of_isLineEnd {c : Char} (h : isLineEnd c = true) :
    isWhitespace c = true := by
  have hmem := of_decide_eq_true h
  simp only [List.mem_cons, List.not_mem_nil, or_false] at hmem
  rcases hmem with rfl | rfl
  all_goals rfl

/-- A text without white space in it has no line end in it. -/
theorem isWord_isLineEnd {w : Text} (h : IsWord isWhitespace w) :
    IsWord isLineEnd w where
  ne_nil := h.ne_nil
  unbroken := by
    intro c hc
    by_contra hend
    rw [Bool.not_eq_false] at hend
    exact absurd (isWhitespace_of_isLineEnd hend) (by simp [h.unbroken c hc])

theorem isWord_toDigits {base : ℕ} (hbase : 1 < base) (hsixteen : base ≤ 16)
    (n : ℕ) : IsWord isWhitespace (Nat.toDigits base n) where
  ne_nil := Nat.toDigits_ne_nil
  unbroken := by
    intro c hc
    obtain ⟨d, hd, rfl⟩ := mem_toDigits hbase hc
    by_contra hspace
    rw [Bool.not_eq_false] at hspace
    have hnot := (digitChar_spec d (hd.trans_le hsixteen)).2.1
    exact absurd (isSpace_of_isWhitespace hspace) (by simp [hnot])

theorem isWord_writeUnsigned (w : UInt64) :
    IsWord isWhitespace (writeUnsigned w) :=
  isWord_toDigits (by decide) le_rfl _

theorem isWord_decimal (i : ℤ) : IsWord isWhitespace (writeNatural 10 i) :=
  isWord_toDigits (by decide) (by decide) _

theorem isWord_hexadecimal (i : ℤ) : IsWord isWhitespace (writeNatural 16 i) :=
  isWord_toDigits (by decide) le_rfl _

theorem natural?_writeNatural {base : ℕ} (hbase : 1 < base)
    (hsixteen : base ≤ 16) {i : ℤ} (h : Natural i) :
    natural? base (writeNatural base i) = some i := by
  have hread := strtol_toDigits hbase hsixteen h.1 h.2.le
  simp [natural?, writeNatural, hread, isValidAfterNumber, h.1, h.2.ne]

theorem natural?_decimal {i : ℤ} (h : Natural i) :
    natural? 10 (writeNatural 10 i) = some i :=
  natural?_writeNatural (by decide) (by decide) h

theorem natural?_hexadecimal {i : ℤ} (h : Natural i) :
    natural? 16 (writeNatural 16 i) = some i :=
  natural?_writeNatural (by decide) le_rfl h

theorem unsigned?_writeUnsigned {w : UInt64} (h : Unsigned w) :
    unsigned? (writeUnsigned w) = some w := by
  have hread := strtoull_toDigits (show 1 < 16 by decide) le_rfl w
  rw [unsigned?, writeUnsigned, hread]
  rw [Unsigned] at h
  exact if_pos (by simpa [isValidAfterNumber] using h)

theorem natural_of_natural? {base : ℕ} {token : Text} {i : ℤ}
    (h : natural? base token = some i) : Natural i := by
  simp only [natural?, Option.ite_none_right_eq_some, Bool.and_eq_true,
    decide_eq_true_eq, Option.some.injEq] at h
  obtain ⟨⟨⟨-, hne⟩, hnonneg⟩, rfl⟩ := h
  have hle : (strtol base token).1 ≤ longMax := strtol_le base token
  exact ⟨hnonneg, lt_of_le_of_ne hle hne⟩

theorem unsigned_of_unsigned? {token : Text} {w : UInt64}
    (h : unsigned? token = some w) : Unsigned w := by
  simp only [unsigned?, Option.ite_none_right_eq_some, Bool.and_eq_true,
    decide_eq_true_eq, Option.some.injEq] at h
  obtain ⟨⟨-, hne⟩, rfl⟩ := h
  exact hne

end SymbolFile
end MiscCode
