import Mathlib.Data.List.Infix

/-!
# The first occurrence of a pattern

The search walks through a text until the pattern starts at its position, and
answers the text from there on.  What stands in front can be skipped when it
lacks the pattern's first symbol, or when it ends with a symbol that a part of
the pattern lacks and does not contain that part.
-/

namespace FirstOccurrence

universe u

variable {α : Type u} [DecidableEq α] {pat s t : List α}

/-- The text from the first occurrence of the pattern on. -/
def search (pat : List α) : List α → Option (List α)
  | [] => if pat = [] then some [] else none
  | c :: cs => if pat <+: c :: cs then some (c :: cs) else search pat cs

theorem search_of_isPrefix (h : pat <+: s) : search pat s = some s := by
  cases s with
  | nil => exact if_pos (List.prefix_nil.mp h)
  | cons c cs => exact if_pos h

theorem search_cons_of_not {c : α} {cs : List α} (h : ¬ pat <+: c :: cs) :
    search pat (c :: cs) = search pat cs :=
  if_neg h

/-- What is found starts with the pattern. -/
theorem prefix_of_search (h : search pat s = some t) : pat <+: t := by
  induction s with
  | nil =>
      unfold search at h
      split at h
      · next hpat =>
          rw [hpat]
          exact List.nil_prefix
      · cases h
  | cons c cs ih =>
      unfold search at h
      split at h
      · next hpat =>
          cases h
          exact hpat
      · exact ih h

omit [DecidableEq α] in
/-- A pattern without the symbol `q` does not reach beyond it. -/
theorem prefix_of_prefix_append {q : α} (hq : q ∉ pat)
    (h : pat <+: s ++ q :: t) : pat <+: s := by
  rcases List.prefix_or_prefix_of_prefix h (List.prefix_append s (q :: t)) with
    hs | ⟨r, rfl⟩
  · exact hs
  · have hr : r <+: q :: t := (List.prefix_append_right_inj s).mp h
    cases r with
    | nil => exact (List.append_nil s).symm ▸ List.prefix_rfl
    | cons c r =>
        obtain ⟨rfl, -⟩ := List.cons_prefix_cons.mp hr
        exact absurd (List.mem_append_right s List.mem_cons_self) hq

/-- Symbols other than the pattern's first one are skipped. -/
theorem search_skip_head {p : α} {ps : List α} (h : p ∉ s) :
    search (p :: ps) (s ++ t) = search (p :: ps) t := by
  induction s with
  | nil => rfl
  | cons c s ih =>
      have hne : ¬ p :: ps <+: c :: (s ++ t) := by
        intro hpre
        exact h ((List.cons_prefix_cons.mp hpre).1 ▸ List.mem_cons_self)
      rw [List.cons_append, search_cons_of_not hne,
        ih fun hmem => h (List.mem_cons_of_mem c hmem)]

/-- A text is skipped that lacks a part of the pattern, up to a symbol which
that part lacks. -/
theorem search_skip_part {k : List α} {q : α} (hk : k <+: pat) (hne : k ≠ [])
    (hq : q ∉ k) (hs : ¬ k <:+: s) :
    search pat (s ++ q :: t) = search pat t := by
  induction s with
  | nil =>
      apply search_cons_of_not
      intro hpre
      exact hne (List.prefix_nil.mp
        (prefix_of_prefix_append hq (hk.trans hpre)))
  | cons c s ih =>
      have hnot : ¬ pat <+: c :: (s ++ q :: t) := by
        intro hpre
        exact hs (prefix_of_prefix_append hq (hk.trans hpre)).isInfix
      rw [List.cons_append, search_cons_of_not hnot]
      exact ih fun hin => hs (hin.trans (List.suffix_cons c s).isInfix)

/-- A pattern that ends with a symbol it has nowhere else is found where no
occurrence is in front of it. -/
theorem search_eq_some_iff {k : List α} {q : α} (hq : q ∉ k) :
    search (k ++ [q]) s = some (k ++ [q] ++ t) ↔
      ∃ pre, s = pre ++ (k ++ [q] ++ t) ∧ ¬ k ++ [q] <:+: pre := by
  have hkq : k ++ [q] ≠ [] := by simp
  constructor
  · intro h
    induction s with
    | nil =>
        unfold search at h
        rw [if_neg hkq] at h
        cases h
    | cons c s ih =>
        by_cases hpre : k ++ [q] <+: c :: s
        · rw [search_of_isPrefix hpre] at h
          refine ⟨[], Option.some.inj h, ?_⟩
          rwa [List.infix_nil]
        · rw [search_cons_of_not hpre] at h
          obtain ⟨pre, rfl, hnot⟩ := ih h
          refine ⟨c :: pre, rfl, fun hin => ?_⟩
          rcases List.infix_cons_iff.mp hin with hin | hin
          · exact hpre (hin.trans (List.prefix_append (c :: pre) _))
          · exact hnot hin
  · rintro ⟨pre, rfl, hnot⟩
    induction pre with
    | nil => exact search_of_isPrefix (List.prefix_append _ t)
    | cons c pre ih =>
        rw [List.cons_append, search_cons_of_not, ih]
        · exact fun hin => hnot (hin.trans (List.suffix_cons c pre).isInfix)
        · intro hpre
          have htext : c :: pre <+: c :: (pre ++ (k ++ [q] ++ t)) :=
            List.prefix_append (c :: pre) _
          rcases List.prefix_or_prefix_of_prefix hpre htext with hin | ⟨r, hr⟩
          · exact hnot hin.isInfix
          · -- an occurrence that ends inside the next one puts `q` into `k`
            rcases List.eq_nil_or_concat r with rfl | ⟨r, d, rfl⟩
            · rw [List.append_nil] at hr
              exact hnot (hr ▸ List.infix_rfl)
            · have hlast : c :: pre ++ r = k ∧ [d] = [q] :=
                List.append_inj' (by simpa using hr) rfl
              obtain rfl := List.singleton_inj.mp hlast.2
              have hbehind : r ++ [d] <+: k ++ ([d] ++ t) := by
                refine (List.prefix_append_right_inj (c :: pre)).mp ?_
                rw [← List.concat_eq_append, hr]
                simpa using hpre
              have hlength : (r ++ [d]).length ≤ k.length := by
                rw [← hlast.1]
                simp
              have hinside := List.prefix_of_prefix_length_le hbehind
                (List.prefix_append k _) hlength
              exact hq (hinside.subset (by simp))

end FirstOccurrence
