import MiscCode.FindUuid.Model
import Mathlib.Data.List.TakeDrop

/-!
# Members with white space

JSON allows white space on both sides of the colon.  Without any, `find_uuid`
answers the first 36 characters of the value.  Behind the colon it makes the
copy start at the colon, and in front of the colon it hides the key, so that
the answer comes from a later place or there is none.
-/

namespace MiscCode
namespace FindUuid

open FirstOccurrence

/-- The white space of JSON. -/
def whiteSpace : List Char := [' ', '\t', '\n', '\r']

/-- A text with a member `deviceId` whose value is a string. -/
structure Member where
  pre : Str
  /-- The white space in front of the colon. -/
  before : Str
  /-- The white space behind the colon. -/
  behind : Str
  value : Str
  rest : Str
  first : ¬ deviceId <:+: pre
  white_before : ∀ c ∈ before, c ∈ whiteSpace
  white_behind : ∀ c ∈ behind, c ∈ whiteSpace
  length_value : 36 ≤ value.length
  noQuote : '"' ∉ value
  noEscape : '\\' ∉ value

/-- The text from the end of the key on. -/
def Member.tail (m : Member) : Str :=
  '"' :: (m.before ++ ':' :: (m.behind ++ '"' :: (m.value ++ '"' :: m.rest)))

/-- The whole text. -/
def Member.text (m : Member) : Str :=
  m.pre ++ '"' :: (deviceId ++ m.tail)

/-- What is behind the next `deviceId":` of a text. -/
def BehindNextKey (text later : Str) : Prop :=
  ∃ between, text = between ++ (needle ++ later) ∧ ¬ needle <:+: between

/-- The answer is right: there is no white space; or there is only some behind
the colon, and the value starts with the colon and that white space; or there is
some in front of the colon, and behind a later key with its colon the value is
repeated by chance, either behind a quote or with the colon for its first
character. -/
def Member.Readable (m : Member) : Prop :=
  (m.before = [] ∧ m.behind = []) ∨
  (m.before = [] ∧ 35 ≤ m.behind.length ∧
    m.value.take 36 = ':' :: m.behind.take 35) ∨
  (m.before ≠ [] ∧ ∃ later, BehindNextKey (m.value ++ '"' :: m.rest) later ∧
    ((∃ string, later = '"' :: string ∧ string.take 36 = m.value.take 36) ∨
      (later.head? ≠ some '"' ∧ m.value.take 36 = ':' :: later.take 35)))

/-! ## The search -/

theorem findUuid_returned (uuid json : Str) :
    (findUuid uuid (some json)).returned =
      (search needle json).map (scan uuid false) := by
  unfold findUuid
  cases hsearch : search needle json with
  | none => simp only [hsearch, Option.map_none]
  | some devid => simp only [hsearch, Option.map_some]

theorem search_text (m : Member) :
    search needle m.text = search needle (deviceId ++ m.tail) :=
  search_skip_part (List.prefix_append deviceId ['"', ':']) (by decide)
    (by decide) m.first

theorem ne_of_white {c d : Char} (h : c ∈ whiteSpace) (hd : d ∉ whiteSpace) :
    c ≠ d :=
  fun hcd => hd (hcd ▸ h)

/-- The key is found where the colon follows at once. -/
theorem search_tight {m : Member} (h : m.before = []) :
    search needle m.text = some (deviceId ++ m.tail) := by
  rw [search_text]
  apply search_of_isPrefix
  unfold Member.tail
  rw [h]
  exact ⟨_, rfl⟩

/-- White space in front of the colon hides the key. -/
theorem search_loose {m : Member} (h : m.before ≠ []) :
    search needle m.text = search needle (m.value ++ '"' :: m.rest) := by
  obtain ⟨c, cs, hcs⟩ := List.exists_cons_of_ne_nil h
  have hc : c ≠ ':' :=
    ne_of_white (m.white_before c (hcs ▸ List.mem_cons_self)) (by decide)
  have hkey : search needle (deviceId ++ m.tail) = search needle m.tail := by
    unfold Member.tail
    rw [hcs]
    simp [search, needle, deviceId, hc.symm]
  have hskip : 'd' ∉ '"' :: (m.before ++ ':' :: (m.behind ++ ['"'])) := by
    intro hmem
    simp only [List.mem_cons, List.mem_append, List.not_mem_nil,
      or_false] at hmem
    rcases hmem with h | h | h | h | h
    · exact absurd h (by decide)
    · exact absurd (m.white_before _ h) (by decide)
    · exact absurd h (by decide)
    · exact absurd (m.white_behind _ h) (by decide)
    · exact absurd h (by decide)
  have htail : m.tail = '"' :: (m.before ++ ':' :: (m.behind ++ ['"'])) ++
      (m.value ++ '"' :: m.rest) := by
    simp [Member.tail]
  rw [search_text, hkey, htail]
  exact search_skip_head hskip

/-- The key has its colon at the end and nowhere else. -/
theorem search_needle_iff {text later : Str} :
    search needle text = some (needle ++ later) ↔
      BehindNextKey text later := by
  have hneedle : needle = deviceId ++ ['"'] ++ [':'] := rfl
  unfold BehindNextKey
  rw [hneedle]
  exact search_eq_some_iff (by decide)

/-! ## The copy -/

/-- Past the key, the loop copies at the colon. -/
theorem scan_needle (uuid later : Str) :
    scan uuid false (needle ++ later) = copyUuid ':' later := rfl

/-- Behind a quote the copy starts, and otherwise at the colon. -/
theorem copyUuid_eq_iff (later value : Str) :
    copyUuid ':' later = value ↔
      (∃ string, later = '"' :: string ∧ string.take 36 = value) ∨
        (later.head? ≠ some '"' ∧ value = ':' :: later.take 35) := by
  unfold copyUuid
  cases later with
  | nil => simp [eq_comm]
  | cons c cs =>
      by_cases hc : c = '"'
      · simp [hc]
      · simp [hc, eq_comm]

theorem take_value (m : Member) (r : Str) :
    (m.value ++ r).take 36 = m.value.take 36 :=
  List.take_append_of_le_length m.length_value

/-- Right behind the colon the value is copied. -/
theorem copyUuid_tight (m : Member) (r : Str) :
    copyUuid ':' ('"' :: (m.value ++ r)) = m.value.take 36 := by
  unfold copyUuid
  rw [if_pos ⟨rfl, rfl⟩]
  exact take_value m r

/-- With white space in between, the copy starts at the colon. -/
theorem copyUuid_loose {m : Member} (h : m.behind ≠ []) (r : Str) :
    copyUuid ':' (m.behind ++ '"' :: r) = m.value.take 36 ↔
      35 ≤ m.behind.length ∧ m.value.take 36 = ':' :: m.behind.take 35 := by
  obtain ⟨c, cs, hcs⟩ := List.exists_cons_of_ne_nil h
  have hc : c ≠ '"' :=
    ne_of_white (m.white_behind c (hcs ▸ List.mem_cons_self)) (by decide)
  have hcopy : copyUuid ':' (m.behind ++ '"' :: r) =
      ':' :: (m.behind ++ '"' :: r).take 35 := by
    unfold copyUuid
    rw [if_neg, List.take_succ_cons]
    rintro ⟨-, hhead⟩
    rw [hcs] at hhead
    exact hc (Option.some.inj hhead)
  rw [hcopy]
  by_cases hlen : 35 ≤ m.behind.length
  · rw [List.take_append_of_le_length hlen, and_iff_right hlen]
    exact eq_comm
  · refine iff_of_false ?_ fun hr => hlen hr.1
    -- the quote in front of the value would be copied as a part of it
    intro heq
    have hquote : '"' ∈ (m.behind ++ '"' :: r).take 35 := by
      have hsplit : (m.behind ++ '"' :: r).take 35 =
          m.behind ++ '"' :: r.take (35 - m.behind.length - 1) := by
        have hsucc : 35 - m.behind.length =
            35 - m.behind.length - 1 + 1 := by omega
        rw [List.take_append, List.take_of_length_le (by omega), hsucc,
          List.take_succ_cons]
        rfl
      rw [hsplit]
      exact List.mem_append_right _ List.mem_cons_self
    have hmem : '"' ∈ m.value.take 36 :=
      heq ▸ List.mem_cons_of_mem ':' hquote
    exact m.noQuote (List.mem_of_mem_take hmem)

/-- The first 36 characters of the value are answered exactly when there is no
white space around the colon, but for texts that repeat them by chance. -/
theorem findUuid_reads_iff (uuid : Str) (m : Member) :
    (findUuid uuid (some m.text)).returned = some (m.value.take 36) ↔
      m.Readable := by
  unfold Member.Readable
  rw [findUuid_returned]
  by_cases hbefore : m.before = []
  · have htail : deviceId ++ m.tail =
        needle ++ (m.behind ++ '"' :: (m.value ++ '"' :: m.rest)) := by
      unfold Member.tail
      rw [hbefore]
      rfl
    rw [search_tight hbefore, htail]
    simp only [Option.map_some, scan_needle, Option.some.injEq, hbefore, ne_eq,
      not_true_eq_false, true_and, false_and, or_false]
    by_cases hbehind : m.behind = []
    · rw [hbehind]
      exact iff_of_true (copyUuid_tight m _) (.inl rfl)
    · rw [copyUuid_loose hbehind]
      simp only [hbehind, false_or]
  · rw [search_loose hbefore]
    simp only [hbefore, false_and, false_or, ne_eq, not_false_eq_true,
      true_and]
    simp only [← search_needle_iff, ← copyUuid_eq_iff]
    cases hsearch : search needle (m.value ++ '"' :: m.rest) with
    | none => exact iff_of_false nofun nofun
    | some t =>
        obtain ⟨later, rfl⟩ := prefix_of_search hsearch
        simp only [Option.map_some, scan_needle, Option.some.injEq,
          List.append_cancel_left_eq]
        constructor
        · exact fun h => ⟨later, rfl, h⟩
        · rintro ⟨_, rfl, h⟩
          exact h

/-- One space behind the colon: the colon and the space are copied, and the
end of the value is missing. -/
theorem space_behind_colon :
    ∃ m : Member,
      m.text = ("\x7b\"deviceId\": " ++
        "\"01234567-89ab-cdef-0123-456789abcdef\"\x7d").toList ∧
      (findUuid [] (some m.text)).returned =
        some ": \"01234567-89ab-cdef-0123-456789abc".toList ∧
      (findUuid [] (some m.text)).returned ≠ some (m.value.take 36) := by
  let m : Member :=
    { pre := ['{'], before := [], behind := [' ']
      value := "01234567-89ab-cdef-0123-456789abcdef".toList, rest := ['}']
      first := by decide, white_before := nofun
      white_behind := List.forall_mem_singleton.mpr (by decide)
      length_value := by decide, noQuote := by decide, noEscape := by decide }
  have hrun : (findUuid [] (some m.text)).returned =
      some ": \"01234567-89ab-cdef-0123-456789abc".toList := by
    rw [findUuid_returned, search_tight rfl]
    rfl
  refine ⟨m, rfl, hrun, ?_⟩
  rw [hrun]
  decide

end FindUuid
end MiscCode
