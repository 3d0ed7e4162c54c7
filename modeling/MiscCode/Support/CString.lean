import MiscCode.Support.ByteLayout
import Mathlib.Data.List.TakeWhile

/-!
# Strings in buffers

A string is what its buffer holds in front of the first NUL.  A string that is
written with its NUL is read back, and a NUL written into a string cuts it.
-/

namespace CString

open ByteLayout

universe u

variable {α : Type u} [DecidableEq α] {nul : α} {buf s : List α}

/-- The string in a buffer. -/
def text (nul : α) (buf : List α) : List α :=
  buf.takeWhile (· ≠ nul)

theorem text_initial (nul : α) (buf : List α) : text nul buf <+: buf :=
  List.takeWhile_prefix _

theorem nul_notMem_text (nul : α) (buf : List α) : nul ∉ text nul buf := by
  intro hmem
  have hne := List.mem_takeWhile_imp hmem
  exact (of_decide_eq_true hne) rfl

theorem text_eq_self_iff : text nul s = s ↔ nul ∉ s := by
  constructor
  · intro h
    rw [← h]
    exact nul_notMem_text nul s
  · intro h
    apply List.takeWhile_eq_self_iff.mpr
    intro x hx
    apply decide_eq_true
    rintro rfl
    exact h hx

/-- What stands behind a NUL does not matter. -/
theorem text_append_nul (s t : List α) :
    text nul (s ++ nul :: t) = text nul s := by
  induction s with
  | nil => exact List.takeWhile_cons_of_neg (by simp)
  | cons c s ih =>
      unfold text at ih ⊢
      rw [List.cons_append, List.takeWhile_cons, List.takeWhile_cons, ih]

/-- A string written with its NUL to the front of a buffer. -/
theorem text_put_zero (buf s : List α) :
    text nul (put buf 0 (s ++ [nul])) = text nul s := by
  rw [put_zero, List.append_assoc]
  exact text_append_nul s _

/-- A NUL cuts the string that it is written into. -/
theorem text_put_nul {i : ℕ} (h : i ≤ (text nul buf).length) :
    text nul (put buf i [nul]) = (text nul buf).take i := by
  obtain ⟨t, ht⟩ := text_initial nul buf
  have hfront : buf.take i = (text nul buf).take i := by
    rw [← List.take_append_of_le_length h, ht]
  rw [put, hfront, List.append_assoc]
  refine (text_append_nul _ _).trans (text_eq_self_iff.mpr ?_)
  exact fun hmem => nul_notMem_text nul buf (List.mem_of_mem_take hmem)

end CString
