import Mathlib.Order.Basic
import Mathlib.Data.Nat.Notation

/-!
# Two parties and two queues

Two parties exchange messages over two queues that neither lose, duplicate nor
reorder.  A party acts when it receives: it takes the oldest message of its
queue, changes its state and sends messages to the other party.  Deliveries to
the two parties commute, so the order in which a scheduler makes them does not
matter: when one run comes to an end, every run can be continued to the same
end, in the same number of deliveries.
-/

namespace Duplex

universe u

/-! ## Runs of a relation that commutes with itself -/

section Runs

variable {σ : Type u} {R : σ → σ → Prop} {s t u : σ} {n k : ℕ}

/-- A run of `n` steps. -/
inductive Steps (R : σ → σ → Prop) : ℕ → σ → σ → Prop where
  | refl (s : σ) : Steps R 0 s s
  | head {n : ℕ} {s t u : σ} : R s t → Steps R n t u → Steps R (n + 1) s u

/-- Some run leads from `s` to `t`. -/
def Reaches (R : σ → σ → Prop) (s t : σ) : Prop :=
  ∃ n, Steps R n s t

/-- No step is possible. -/
def Stuck (R : σ → σ → Prop) (s : σ) : Prop :=
  ∀ t, ¬ R s t

/-- Different steps from one state lead to a common state in one step each. -/
def Commutes (R : σ → σ → Prop) : Prop :=
  ∀ ⦃s a b⦄, R s a → R s b → a = b ∨ ∃ c, R a c ∧ R b c

/-- Every run from `s` ends in `t`: it can be continued to `t`, after which
nothing happens, and no run is longer than that. -/
def EndsAt (R : σ → σ → Prop) (s t : σ) : Prop :=
  Stuck R t ∧ ∃ n, Steps R n s t ∧
    ∀ k u, Steps R k s u → k ≤ n ∧ Steps R (n - k) u t

theorem Reaches.refl (s : σ) : Reaches R s s := ⟨0, .refl s⟩

theorem Reaches.head (h : R s t) (ht : Reaches R t u) : Reaches R s u := by
  obtain ⟨n, hn⟩ := ht
  exact ⟨n + 1, .head h hn⟩

theorem Reaches.trans (hs : Reaches R s t) (ht : Reaches R t u) :
    Reaches R s u := by
  obtain ⟨n, hn⟩ := hs
  induction hn with
  | refl => exact ht
  | head hstep _ ih => exact (ih ht).head hstep

theorem steps_zero (h : Steps R 0 s t) : s = t := by
  cases h
  rfl

theorem steps_succ (h : Steps R (n + 1) s t) :
    ∃ a, R s a ∧ Steps R n a t := by
  cases h with
  | head hstep hrest => exact ⟨_, hstep, hrest⟩

/-- After any first step, the rest of a run to a stuck state is one step
shorter. -/
theorem Commutes.after_step (hR : Commutes R) (h : Steps R n s t)
    (ht : Stuck R t) {a : σ} (ha : R s a) :
    ∃ m, n = m + 1 ∧ Steps R m a t := by
  induction n generalizing s a with
  | zero =>
      obtain rfl := steps_zero h
      exact absurd ha (ht a)
  | succ n ih =>
      obtain ⟨b, hb, hrest⟩ := steps_succ h
      rcases hR ha hb with rfl | ⟨c, hac, hbc⟩
      · exact ⟨n, rfl, hrest⟩
      · obtain ⟨m, rfl, hm⟩ := ih hrest hbc
        exact ⟨m + 1, rfl, .head hac hm⟩

/-- One run to a stuck state decides them all. -/
theorem Commutes.endsAt (hR : Commutes R) (h : Reaches R s t)
    (ht : Stuck R t) : EndsAt R s t := by
  obtain ⟨n, hn⟩ := h
  refine ⟨ht, n, hn, ?_⟩
  intro k u hk
  induction k generalizing n s with
  | zero =>
      obtain rfl := steps_zero hk
      exact ⟨Nat.zero_le n, hn⟩
  | succ k ih =>
      obtain ⟨a, ha, hrest⟩ := steps_succ hk
      obtain ⟨m, rfl, hm⟩ := hR.after_step hn ht ha
      obtain ⟨hle, hcont⟩ := ih m hm hrest
      refine ⟨Nat.succ_le_succ hle, ?_⟩
      rw [Nat.succ_sub_succ]
      exact hcont

/-- The end of all runs is the only stuck state that is reached. -/
theorem EndsAt.eq_of_stuck (h : EndsAt R s t) (hu : Reaches R s u)
    (hstuck : Stuck R u) : u = t := by
  obtain ⟨-, n, -, hall⟩ := h
  obtain ⟨k, hk⟩ := hu
  obtain ⟨-, hrest⟩ := hall k u hk
  cases hm : n - k with
  | zero =>
      rw [hm] at hrest
      exact steps_zero hrest
  | succ m =>
      rw [hm] at hrest
      obtain ⟨a, ha, -⟩ := steps_succ hrest
      exact absurd ha (hstuck a)

end Runs

/-! ## Two parties -/

section Parties

variable {σ τ μ ν : Type u}

/-- The states of both parties and the messages in flight, oldest first. -/
structure System (σ τ μ ν : Type u) where
  left : σ
  right : τ
  toRight : List μ
  toLeft : List ν

/-- A delivery to one of the parties. -/
inductive Step (f : σ → ν → σ × List μ) (g : τ → μ → τ × List ν) :
    System σ τ μ ν → System σ τ μ ν → Prop where
  | left (a : σ) (b : τ) (q : List μ) (m : ν) (r : List ν) :
      Step f g ⟨a, b, q, m :: r⟩ ⟨(f a m).1, b, q ++ (f a m).2, r⟩
  | right (a : σ) (b : τ) (m : μ) (q : List μ) (r : List ν) :
      Step f g ⟨a, b, m :: q, r⟩ ⟨a, (g b m).1, q, r ++ (g b m).2⟩

variable {f : σ → ν → σ × List μ} {g : τ → μ → τ × List ν}

/-- Deliveries to different parties commute. -/
theorem commutes_step : Commutes (Step f g) := by
  intro s a b ha hb
  cases ha with
  | left x y q m r =>
      cases hb with
      | left => exact .inl rfl
      | right _ _ m' q' =>
          refine .inr ⟨_, .right _ _ m' (q' ++ (f x m).2) r, ?_⟩
          exact .left x _ q' m (r ++ (g y m').2)
  | right x y m q r =>
      cases hb with
      | right => exact .inl rfl
      | left _ _ _ m' r' =>
          refine .inr ⟨_, .left x _ q m' (r' ++ (g y m).2), ?_⟩
          exact .right _ y m (q ++ (f x m').2) r'

/-- Nothing happens exactly when nothing is in flight. -/
theorem stuck_iff {s : System σ τ μ ν} :
    Stuck (Step f g) s ↔ s.toRight = [] ∧ s.toLeft = [] := by
  obtain ⟨a, b, q, r⟩ := s
  constructor
  · intro h
    constructor
    · cases q with
      | nil => rfl
      | cons m q => exact absurd (.right a b m q r) (h _)
    · cases r with
      | nil => rfl
      | cons m r => exact absurd (.left a b q m r) (h _)
  · rintro ⟨rfl, rfl⟩ t ht
    cases ht

/-- A delivery to the right party, at the head of a run. -/
theorem Reaches.right {a : σ} {b b' : τ} {m : μ} {q : List μ} {r r' : List ν}
    {t : System σ τ μ ν} (hg : g b m = (b', r'))
    (ht : Reaches (Step f g) ⟨a, b', q, r ++ r'⟩ t) :
    Reaches (Step f g) ⟨a, b, m :: q, r⟩ t := by
  refine .head (.right a b m q r) ?_
  rw [hg]
  exact ht

/-- A delivery to the left party, at the head of a run. -/
theorem Reaches.left {a a' : σ} {b : τ} {m : ν} {q q' : List μ} {r : List ν}
    {t : System σ τ μ ν} (hf : f a m = (a', q'))
    (ht : Reaches (Step f g) ⟨a', b, q ++ q', r⟩ t) :
    Reaches (Step f g) ⟨a, b, q, m :: r⟩ t := by
  refine .head (.left a b q m r) ?_
  rw [hf]
  exact ht

end Parties

end Duplex
