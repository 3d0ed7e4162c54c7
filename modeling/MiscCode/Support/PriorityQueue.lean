import MiscCode.Support.Calls
import Mathlib.Data.Multiset.AddSub
import Mathlib.Data.Multiset.Replicate
import Mathlib.Order.Defs.Unbundled

/-!
# Priority queues

A priority queue holds a multiset.  A removal takes out an element that comes
before every other one; on an empty queue it answers a fixed value and leaves
the queue empty.  Any queue that behaves so sorts: filled and then emptied, it
answers what it was given, in order.
-/

namespace PriorityQueue

universe u

open Calls

variable {α : Type u} {r : α → α → Prop} {idle : α}

/-- What a queue can be asked. -/
inductive Call (α : Type u) where
  | push (v : α)
  | pop
  deriving DecidableEq, Repr

/-- The same request with another element. -/
def Call.map {β : Type u} (f : α → β) : Call α → Call β
  | .push v => .push (f v)
  | .pop => .pop

/-- `x` is held and comes before everything held. -/
def IsFirst (r : α → α → Prop) (q : Multiset α) (x : α) : Prop :=
  x ∈ q ∧ ∀ y ∈ q, r x y

/-- One call: what it finds, what it is, what it answers and what it leaves. -/
inductive Serves [DecidableEq α] (r : α → α → Prop) (idle : α) :
    Multiset α → Call α → Option α → Multiset α → Prop where
  | push (q : Multiset α) (v : α) : Serves r idle q (.push v) none (v ::ₘ q)
  | pop {q : Multiset α} {x : α} :
      IsFirst r q x → Serves r idle q .pop (some x) (q.erase x)
  | idle : Serves r idle 0 .pop (some idle) 0

/-- The elements given to the queue. -/
def pushed : List (Call α) → Multiset α
  | [] => 0
  | .push v :: cs => v ::ₘ pushed cs
  | .pop :: cs => pushed cs

/-- The elements taken out of a queue that holds `n` of them: the answers of
the removals that do not find it empty. -/
def popped : ℕ → List (Call α) → List (Option α) → Multiset α
  | n, .push _ :: cs, _ :: os => popped (n + 1) cs os
  | n + 1, .pop :: cs, some x :: os => x ::ₘ popped n cs os
  | 0, .pop :: cs, _ :: os => popped 0 cs os
  | _, _, _ => 0

theorem pushed_pushes (vs : List α) (cs : List (Call α)) :
    pushed (vs.map .push ++ cs) = (vs : Multiset α) + pushed cs := by
  induction vs with
  | nil => exact (Multiset.zero_add _).symm
  | cons v vs ih =>
      rw [← Multiset.cons_coe, Multiset.cons_add, ← ih]
      rfl

theorem pushed_pops (n : ℕ) :
    pushed (List.replicate n (.pop : Call α)) = 0 := by
  induction n with
  | zero => rfl
  | succ n ih => exact ih

variable [DecidableEq α]

/-- Nothing is lost and nothing invented: what a queue holds and what was
taken out is what it held and what it was given. -/
theorem follows_balance {cs : List (Call α)} {q q' : Multiset α}
    {os : List (Option α)} (h : Follows (Serves r idle) q cs os q') :
    q' + popped (Multiset.card q) cs os = q + pushed cs := by
  induction cs generalizing q os with
  | nil =>
      obtain ⟨rfl, rfl⟩ := follows_nil_iff.mp h
      rfl
  | cons c cs ih =>
      obtain ⟨o, os', t, rfl, hserve, hrest⟩ := follows_cons_iff.mp h
      have hbalance := ih hrest
      cases hserve with
      | push _ v =>
          rw [Multiset.card_cons] at hbalance
          unfold popped pushed
          rw [hbalance, Multiset.add_cons, Multiset.cons_add]
      | @pop _ x hfirst =>
          have hcard : Multiset.card q = Multiset.card (q.erase x) + 1 := by
            rw [← Multiset.card_cons, Multiset.cons_erase hfirst.1]
          rw [hcard]
          unfold popped pushed
          rw [Multiset.add_cons, hbalance, ← Multiset.cons_add,
            Multiset.cons_erase hfirst.1]
      | idle =>
          rw [Multiset.card_zero] at hbalance ⊢
          unfold popped pushed
          exact hbalance

/-- Pushes add what they are given. -/
theorem follows_pushes {vs : List α} {q q' : Multiset α}
    {os : List (Option α)}
    (h : Follows (Serves r idle) q (vs.map .push) os q') :
    os = List.replicate vs.length none ∧ q' = q + ↑vs := by
  induction vs generalizing q os with
  | nil =>
      obtain ⟨rfl, rfl⟩ := follows_nil_iff.mp h
      exact ⟨rfl, (Multiset.add_zero q').symm⟩
  | cons v vs ih =>
      obtain ⟨o, os', t, rfl, hserve, hrest⟩ := follows_cons_iff.mp h
      cases hserve
      obtain ⟨rfl, rfl⟩ := ih hrest
      refine ⟨rfl, ?_⟩
      rw [← Multiset.cons_coe, Multiset.add_cons, Multiset.cons_add]

/-- As many removals as there are elements answer them in order. -/
theorem follows_pops {n : ℕ} {q q' : Multiset α} {os : List (Option α)}
    (h : Follows (Serves r idle) q (List.replicate n .pop) os q')
    (hn : Multiset.card q = n) :
    q' = 0 ∧ ∃ xs : List α, os = xs.map some ∧ xs.Pairwise r ∧ ↑xs = q := by
  induction n generalizing q os with
  | zero =>
      obtain ⟨rfl, rfl⟩ := follows_nil_iff.mp h
      have hq : q' = 0 := Multiset.card_eq_zero.mp hn
      exact ⟨hq, [], rfl, .nil, hq.symm⟩
  | succ n ih =>
      rw [List.replicate_succ] at h
      obtain ⟨o, os', t, rfl, hserve, hrest⟩ := follows_cons_iff.mp h
      cases hserve with
      | idle => simp at hn
      | @pop _ x hfirst =>
          have hcard : Multiset.card (q.erase x) = n := by
            rw [Multiset.card_erase_of_mem hfirst.1, hn]
            rfl
          obtain ⟨hq', xs, rfl, hsorted, hxs⟩ := ih hrest hcard
          have hmem : ∀ y ∈ xs, y ∈ q := by
            intro y hy
            apply Multiset.mem_of_mem_erase (b := x)
            rw [← hxs]
            exact hy
          refine ⟨hq', x :: xs, rfl, ?_, ?_⟩
          · exact .cons (fun y hy => hfirst.2 y (hmem y hy)) hsorted
          · rw [← Multiset.cons_coe, hxs, Multiset.cons_erase hfirst.1]

/-- A queue filled with `vs` and then emptied answers `vs` in order. -/
theorem follows_sorts {vs : List α} {q' : Multiset α} {os : List (Option α)}
    (h : Follows (Serves r idle) 0
      (vs.map .push ++ List.replicate vs.length .pop) os q') :
    q' = 0 ∧ ∃ xs : List α,
      os = List.replicate vs.length none ++ xs.map some ∧
        xs.Pairwise r ∧ xs.Perm vs := by
  obtain ⟨os₁, os₂, t, rfl, hpush, hpop⟩ := follows_append_iff.mp h
  obtain ⟨rfl, rfl⟩ := follows_pushes hpush
  rw [Multiset.zero_add] at hpop
  obtain ⟨hq', xs, rfl, hsorted, hxs⟩ :=
    follows_pops hpop (Multiset.coe_card vs)
  exact ⟨hq', xs, rfl, hsorted, Multiset.coe_eq_coe.mp hxs⟩

end PriorityQueue
