import Mathlib.Data.List.TakeWhile
import Mathlib.Data.Nat.Notation

/-!
# Splitting a text into words

Some characters separate words, and a text is read word by word: the separators
in front of a word are skipped, and the one behind it is taken off with it.
Reading on until nothing is left yields the pieces between separators that are
not empty.
-/

namespace Words

universe u

variable {α : Type u} {sep : α → Bool}

/-- A word: it is not empty and has no separator in it. -/
structure IsWord (sep : α → Bool) (w : List α) : Prop where
  ne_nil : w ≠ []
  unbroken : ∀ c ∈ w, sep c = false

/-- The words of a text in turn. -/
def words (sep : α → Bool) (cs : List α) : List (List α) :=
  (cs.splitOnP sep).filter fun w => !w.isEmpty

/-- The first word of a text, and what is behind the separator that ends it. -/
def next (sep : α → Bool) (cs : List α) : Option (List α × List α) :=
  let rest := cs.dropWhile sep
  if rest.isEmpty then none
  else
    some (rest.takeWhile fun c => !sep c, (rest.dropWhile fun c => !sep c).tail)

/-- The first words of a text, as many as wanted, and what is behind them. -/
def nexts (sep : α → Bool) : ℕ → List α → Option (List (List α) × List α)
  | 0, cs => some ([], cs)
  | n + 1, cs => do
      let (w, rest) ← next sep cs
      let (ws, rest) ← nexts sep n rest
      some (w :: ws, rest)

/-! ## The words of a text -/

@[simp] theorem words_nil : words sep [] = [] := by
  simp [words, List.splitOnP_nil]

/-- A separator ends the words in front of it. -/
theorem words_append_cons {c : α} (hc : sep c) (cs ds : List α) :
    words sep (cs ++ c :: ds) = words sep cs ++ words sep ds := by
  rw [words, List.splitOnP_append_cons cs ds hc, List.filter_append]
  rfl

theorem words_cons {c : α} (hc : sep c) (cs : List α) :
    words sep (c :: cs) = words sep cs := by
  simpa using words_append_cons hc [] cs

theorem words_append_of_separators {gap : List α} (hgap : ∀ c ∈ gap, sep c)
    (cs : List α) : words sep (gap ++ cs) = words sep cs := by
  induction gap with
  | nil => rfl
  | cons c gap ih =>
      obtain ⟨hc, hgap⟩ := List.forall_mem_cons.mp hgap
      rw [List.cons_append, words_cons hc, ih hgap]

theorem words_of_isWord {w : List α} (hw : IsWord sep w) :
    words sep w = [w] := by
  rw [words, List.splitOnP_eq_singleton hw.unbroken]
  simp [hw.ne_nil]

theorem words_isWord_cons {w : List α} (hw : IsWord sep w) {c : α} (hc : sep c)
    (cs : List α) : words sep (w ++ c :: cs) = w :: words sep cs := by
  rw [words_append_cons hc, words_of_isWord hw, List.singleton_append]

/-- Words with one separator between any two of them are read back. -/
theorem words_intercalate {c : α} (hc : sep c) {ws : List (List α)}
    (hws : ∀ w ∈ ws, IsWord sep w) : words sep ([c].intercalate ws) = ws := by
  induction ws with
  | nil => exact words_nil
  | cons w ws ih =>
      obtain ⟨hw, hws⟩ := List.forall_mem_cons.mp hws
      cases ws with
      | nil => simpa using words_of_isWord hw
      | cons w' ws =>
          rw [List.intercalate_cons_cons, List.append_assoc,
            List.singleton_append, words_isWord_cons hw hc, ih hws]

/-! ## Words put together -/

theorem intercalate_append (gap : List α) {ws vs : List (List α)}
    (hws : ws ≠ []) (hvs : vs ≠ []) :
    gap.intercalate (ws ++ vs) =
      gap.intercalate ws ++ gap ++ gap.intercalate vs := by
  induction ws with
  | nil => exact absurd rfl hws
  | cons w ws ih =>
      cases ws with
      | nil =>
          rw [List.singleton_append, List.intercalate_cons_of_ne_nil hvs,
            List.intercalate_singleton]
      | cons w' ws =>
          have hih := ih (by simp)
          simp only [List.cons_append, List.intercalate_cons_cons] at hih ⊢
          rw [hih]
          simp only [List.append_assoc]

theorem mem_of_mem_intercalate {gap : List α} {ws : List (List α)} {c : α}
    (h : c ∈ gap.intercalate ws) : c ∈ gap ∨ ∃ w ∈ ws, c ∈ w := by
  induction ws with
  | nil => cases h
  | cons w ws ih =>
      cases ws with
      | nil =>
          rw [List.intercalate_singleton] at h
          exact .inr ⟨w, List.mem_singleton_self w, h⟩
      | cons w' ws =>
          simp only [List.intercalate_cons_cons, List.mem_append] at h
          rcases h with (h | h) | h
          · exact .inr ⟨w, List.mem_cons_self, h⟩
          · exact .inl h
          · rcases ih h with hgap | ⟨v, hv, hc⟩
            · exact .inl hgap
            · exact .inr ⟨v, List.mem_cons_of_mem _ hv, hc⟩

/-! ## Reading on word by word -/

theorem next_eq_none_iff {cs : List α} :
    next sep cs = none ↔ ∀ c ∈ cs, sep c := by
  simp [next]

theorem head_of_dropWhile {p : α → Bool} {c : α} {cs rest : List α}
    (h : cs.dropWhile p = c :: rest) : p c = false := by
  have hhead := List.head_dropWhile_not p (l := cs) (by simp [h])
  simpa [h] using hhead

/-- A text that starts with a word's first character is the word, then
separators or nothing. -/
theorem takeWhile_word_cases {d : α} (hd : sep d = false) (ds : List α) :
    let w := (d :: ds).takeWhile fun c => !sep c
    let rest := ((d :: ds).dropWhile fun c => !sep c).tail
    IsWord sep w ∧ ((d :: ds = w ∧ rest = []) ∨
      ∃ c, sep c ∧ d :: ds = w ++ c :: rest) := by
  intro w rest
  have hsplit : w ++ ((d :: ds).dropWhile fun c => !sep c) = d :: ds :=
    List.takeWhile_append_dropWhile
  refine ⟨⟨by simp [w, hd], ?_⟩, ?_⟩
  · intro c hc
    simpa using List.mem_takeWhile_imp hc
  · cases hbehind : (d :: ds).dropWhile fun c => !sep c with
    | nil =>
        rw [hbehind, List.append_nil] at hsplit
        exact .inl ⟨hsplit.symm, by simp [rest, hbehind]⟩
    | cons c cs =>
        have hc : (!sep c) = false :=
          head_of_dropWhile (p := fun c => !sep c) hbehind
        rw [hbehind] at hsplit
        refine .inr ⟨c, by simpa using hc, ?_⟩
        simpa [rest, hbehind] using hsplit.symm

/-- What reading a word comes to: the separators skipped, the word, and the
separator behind it unless the text ends there. -/
theorem next_cases {cs w rest : List α} (h : next sep cs = some (w, rest)) :
    IsWord sep w ∧ ∃ gap : List α, (∀ c ∈ gap, sep c) ∧
      ((cs = gap ++ w ∧ rest = []) ∨
        ∃ c, sep c ∧ cs = gap ++ (w ++ c :: rest)) := by
  have hsplit : cs.takeWhile sep ++ cs.dropWhile sep = cs :=
    List.takeWhile_append_dropWhile
  cases hrest : cs.dropWhile sep with
  | nil => simp [next, hrest] at h
  | cons d ds =>
      have hd : sep d = false := head_of_dropWhile hrest
      obtain ⟨hw, hcases⟩ := takeWhile_word_cases hd ds
      simp only [next, hrest, List.isEmpty_cons, Bool.false_eq_true, if_false,
        Option.some.injEq, Prod.mk.injEq] at h
      obtain ⟨rfl, rfl⟩ := h
      rw [hrest] at hsplit
      refine ⟨hw, cs.takeWhile sep, fun c => List.mem_takeWhile_imp, ?_⟩
      rcases hcases with ⟨hds, hnil⟩ | ⟨c, hc, hds⟩
      · exact .inl ⟨by rw [← hds, hsplit], hnil⟩
      · exact .inr ⟨c, hc, by rw [← hds, hsplit]⟩

theorem words_of_next_none {cs : List α} (h : next sep cs = none) :
    words sep cs = [] := by
  simpa using words_append_of_separators (next_eq_none_iff.mp h) []

theorem words_of_next {cs w rest : List α} (h : next sep cs = some (w, rest)) :
    words sep cs = w :: words sep rest := by
  obtain ⟨hw, gap, hgap, ⟨rfl, rfl⟩ | ⟨c, hc, rfl⟩⟩ := next_cases h
  · rw [words_append_of_separators hgap, words_of_isWord hw, words_nil]
  · rw [words_append_of_separators hgap, words_isWord_cons hw hc]

theorem length_of_next {cs w rest : List α} (h : next sep cs = some (w, rest)) :
    rest.length < cs.length := by
  obtain ⟨hw, gap, -, ⟨rfl, rfl⟩ | ⟨c, -, rfl⟩⟩ := next_cases h
  · have := List.length_pos_iff.mpr hw.ne_nil
    simp only [List.length_append, List.length_nil]
    omega
  · simp only [List.length_append, List.length_cons]
    omega

/-- A word in front of a separator is what is read first. -/
theorem next_isWord_cons {w : List α} (hw : IsWord sep w) {c : α} (hc : sep c)
    (rest : List α) : next sep (w ++ c :: rest) = some (w, rest) := by
  obtain ⟨d, w, rfl⟩ := List.exists_cons_of_ne_nil hw.ne_nil
  have hunbroken : ∀ x ∈ d :: w, (!sep x) = true := by
    intro x hx
    simpa using hw.unbroken x hx
  have hd : sep d = false := hw.unbroken d List.mem_cons_self
  have htake : (d :: (w ++ c :: rest)).takeWhile (fun x => !sep x) =
      d :: w ++ (c :: rest).takeWhile fun x => !sep x :=
    List.takeWhile_append_of_pos hunbroken
  have hdrop : (d :: (w ++ c :: rest)).dropWhile (fun x => !sep x) =
      (c :: rest).dropWhile fun x => !sep x :=
    List.dropWhile_append_of_pos hunbroken
  simp [next, List.dropWhile_cons_of_neg, hd, htake, hdrop, hc]

/-- A word at the end of a text is what is read last. -/
theorem next_isWord {w : List α} (hw : IsWord sep w) :
    next sep w = some (w, []) := by
  obtain ⟨d, w, rfl⟩ := List.exists_cons_of_ne_nil hw.ne_nil
  have hunbroken : ∀ x ∈ d :: w, (!sep x) = true := by
    intro x hx
    simpa using hw.unbroken x hx
  have hd : sep d = false := hw.unbroken d List.mem_cons_self
  have htake := List.takeWhile_eq_self_iff.mpr hunbroken
  have hdrop := List.dropWhile_eq_nil_iff.mpr hunbroken
  simp [next, List.dropWhile_cons_of_neg, hd, htake, hdrop]

/-- Induction on a text, one word at a time. -/
theorem word_induction {P : List α → Prop}
    (hend : ∀ cs, next sep cs = none → P cs)
    (hnext : ∀ cs w rest, next sep cs = some (w, rest) → P rest → P cs)
    (cs : List α) : P cs := by
  induction hn : cs.length using Nat.strong_induction_on generalizing cs with
  | _ n ih =>
      cases hread : next sep cs with
      | none => exact hend cs hread
      | some read =>
          obtain ⟨w, rest⟩ := read
          exact hnext cs w rest hread
            (ih rest.length (hn ▸ length_of_next hread) rest rfl)

theorem isWord_of_mem_words {cs w : List α} (h : w ∈ words sep cs) :
    IsWord sep w := by
  induction cs using @word_induction _ sep with
  | hend cs hread => simp [words_of_next_none hread] at h
  | hnext cs v rest hread ih =>
      rw [words_of_next hread, List.mem_cons] at h
      rcases h with rfl | h
      · exact (next_cases hread).1
      · exact ih h

theorem mem_of_next {cs w rest : List α} (h : next sep cs = some (w, rest))
    {c : α} (hc : c ∈ w ∨ c ∈ rest) : c ∈ cs := by
  obtain ⟨-, gap, -, ⟨rfl, rfl⟩ | ⟨d, -, rfl⟩⟩ := next_cases h
  · rcases hc with hc | hc
    · exact List.mem_append_right _ hc
    · cases hc
  · apply List.mem_append_right
    rcases hc with hc | hc
    · exact List.mem_append_left _ hc
    · exact List.mem_append_right _ (List.mem_cons_of_mem _ hc)

theorem nexts_succ_eq_some_iff {n : ℕ} {cs rest : List α}
    {ws : List (List α)} : nexts sep (n + 1) cs = some (ws, rest) ↔
      ∃ w ws' behind, ws = w :: ws' ∧ next sep cs = some (w, behind) ∧
        nexts sep n behind = some (ws', rest) := by
  simp only [nexts, Option.bind_eq_bind, Option.bind_eq_some_iff]
  constructor
  · rintro ⟨⟨w, behind⟩, hread, ⟨ws', last⟩, hreads, hsome⟩
    obtain ⟨rfl, rfl⟩ := Prod.mk.inj (Option.some.inj hsome)
    exact ⟨w, ws', behind, rfl, hread, hreads⟩
  · rintro ⟨w, ws', behind, rfl, hread, hreads⟩
    exact ⟨(w, behind), hread, (ws', rest), hreads, rfl⟩

theorem length_of_nexts {n : ℕ} {cs rest : List α} {ws : List (List α)}
    (h : nexts sep n cs = some (ws, rest)) : ws.length = n := by
  induction n generalizing cs ws with
  | zero =>
      obtain ⟨rfl, -⟩ := Prod.mk.inj (Option.some.inj h)
      rfl
  | succ n ih =>
      obtain ⟨w, ws', behind, rfl, -, hreads⟩ := nexts_succ_eq_some_iff.mp h
      rw [List.length_cons, ih hreads]

theorem mem_of_nexts {n : ℕ} {cs rest : List α} {ws : List (List α)}
    (h : nexts sep n cs = some (ws, rest)) {c : α} (hc : c ∈ rest) : c ∈ cs := by
  induction n generalizing cs ws with
  | zero =>
      obtain ⟨-, rfl⟩ := Prod.mk.inj (Option.some.inj h)
      exact hc
  | succ n ih =>
      obtain ⟨w, ws', behind, -, hread, hreads⟩ := nexts_succ_eq_some_iff.mp h
      exact mem_of_next hread (.inr (ih hreads))

/-- Words with a separator behind each are read one after the other. -/
theorem nexts_flatMap {c : α} (hc : sep c) {ws : List (List α)}
    (hws : ∀ w ∈ ws, IsWord sep w) (rest : List α) :
    nexts sep ws.length (ws.flatMap (· ++ [c]) ++ rest) = some (ws, rest) := by
  induction ws with
  | nil => rfl
  | cons w ws ih =>
      obtain ⟨hw, hws⟩ := List.forall_mem_cons.mp hws
      rw [List.length_cons, nexts_succ_eq_some_iff]
      refine ⟨w, ws, ws.flatMap (· ++ [c]) ++ rest, rfl, ?_, ih hws⟩
      simpa using next_isWord_cons hw hc (ws.flatMap (· ++ [c]) ++ rest)

theorem mem_of_mem_words {cs w : List α} (h : w ∈ words sep cs) {c : α}
    (hc : c ∈ w) : c ∈ cs := by
  induction cs using @word_induction _ sep with
  | hend cs hread => simp [words_of_next_none hread] at h
  | hnext cs v rest hread ih =>
      rw [words_of_next hread, List.mem_cons] at h
      rcases h with rfl | h
      · exact mem_of_next hread (.inl hc)
      · exact mem_of_next hread (.inr (ih h))

end Words
