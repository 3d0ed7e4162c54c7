import Mathlib.Order.Basic
import Mathlib.Order.Nat

/-!
# Calls run under a budget

A recursive procedure that need not return is written as a function of a
budget, and reports `timeout` when the budget is used up.  A call is steady
when a larger budget never changes an answer, so that its outcome does not
depend on the budget that found it.  Steadiness is stated one budget at a
time, which is what an induction over mutually recursive procedures needs.
-/

namespace Fuel

universe u v

variable {ε : Type u} {α β : Type v} {timeout : ε}

/-- The call ends in `o` under some budget. -/
def EndsIn (timeout : ε) (call : ℕ → Except ε α) (o : Except ε α) : Prop :=
  o ≠ .error timeout ∧ ∃ fuel, call fuel = o

/-- The call ends under some budget. -/
def Terminates (timeout : ε) (call : ℕ → Except ε α) : Prop :=
  ∃ fuel, call fuel ≠ .error timeout

/-- An answer found under the budget `m` is found under every larger one. -/
def SteadyAt (timeout : ε) (m : ℕ) (call : ℕ → Except ε α) : Prop :=
  ∀ n, m ≤ n → call m ≠ .error timeout → call n = call m

/-- A larger budget never changes an answer. -/
def Steady (timeout : ε) (call : ℕ → Except ε α) : Prop :=
  ∀ m, SteadyAt timeout m call

theorem ok_ne_error {a : α} {e : ε} : (.ok a : Except ε α) ≠ .error e := nofun

theorem error_ne_ok {a : α} {e : ε} : (.error e : Except ε α) ≠ .ok a := nofun

/-- A value found under one budget. -/
theorem EndsIn.of_ok {call : ℕ → Except ε α} {n : ℕ} {a : α}
    (h : call n = .ok a) : EndsIn timeout call (.ok a) :=
  ⟨ok_ne_error, n, h⟩

/-- A failure found under one budget. -/
theorem EndsIn.of_error {call : ℕ → Except ε α} {n : ℕ} {e : ε}
    (h : call n = .error e) (he : e ≠ timeout) :
    EndsIn timeout call (.error e) :=
  ⟨fun htime => he (Except.error.inj htime), n, h⟩

theorem EndsIn.terminates {call : ℕ → Except ε α} {o : Except ε α}
    (h : EndsIn timeout call o) : Terminates timeout call := by
  obtain ⟨hne, fuel, rfl⟩ := h
  exact ⟨fuel, hne⟩

/-- A steady call has at most one outcome. -/
theorem Steady.unique {call : ℕ → Except ε α} (hs : Steady timeout call)
    {o o' : Except ε α} (h : EndsIn timeout call o)
    (h' : EndsIn timeout call o') : o = o' := by
  obtain ⟨hne, m, rfl⟩ := h
  obtain ⟨hne', n, rfl⟩ := h'
  rcases Nat.le_total m n with hmn | hnm
  · exact (hs m n hmn hne).symm
  · exact hs n m hnm hne'

/-- What a steady call answers once, it answers from some budget on. -/
theorem Steady.eventually {call : ℕ → Except ε α} (hs : Steady timeout call)
    {o : Except ε α} (h : EndsIn timeout call o) :
    ∃ m, ∀ n, m ≤ n → call n = o := by
  obtain ⟨hne, m, rfl⟩ := h
  exact ⟨m, fun n hmn => hs m n hmn hne⟩

theorem bind_eq_ok {x : Except ε α} {f : α → Except ε β} {z : β} :
    x >>= f = .ok z ↔ ∃ a, x = .ok a ∧ f a = .ok z := by
  cases x with
  | error e =>
      constructor
      · intro h
        exact absurd h error_ne_ok
      · rintro ⟨a, ha, -⟩
        exact absurd ha error_ne_ok
  | ok a =>
      constructor
      · intro h
        exact ⟨a, rfl, h⟩
      · rintro ⟨a', ha, h⟩
        obtain rfl := Except.ok.inj ha
        exact h

theorem steadyAt_const (o : Except ε α) (m : ℕ) :
    SteadyAt timeout m fun _ => o :=
  fun _ _ _ => rfl

/-- Sequencing keeps calls steady. -/
theorem SteadyAt.bind {m : ℕ} {call : ℕ → Except ε α}
    {rest : ℕ → α → Except ε β} (hcall : SteadyAt timeout m call)
    (hrest : ∀ a, SteadyAt timeout m fun n => rest n a) :
    SteadyAt timeout m fun n => call n >>= rest n := by
  intro n hmn hne
  cases hm : call m with
  | error e =>
      have he : call m ≠ .error timeout := by
        intro htime
        exact hne (by simp only [htime]; rfl)
      simp only [hcall n hmn he, hm]
      rfl
  | ok a =>
      have he : call m ≠ .error timeout := by rw [hm]; exact ok_ne_error
      have hrest' : rest m a ≠ .error timeout := by
        intro htime
        exact hne (by simp only [hm]; exact htime)
      simp only [hcall n hmn he, hm]
      exact hrest a n hmn hrest'

theorem Steady.bind {call : ℕ → Except ε α} {rest : ℕ → α → Except ε β}
    (hcall : Steady timeout call)
    (hrest : ∀ a, Steady timeout fun n => rest n a) :
    Steady timeout fun n => call n >>= rest n :=
  fun m => (hcall m).bind fun a => hrest a m

/-- A sequence returns exactly when both of its parts do. -/
theorem endsIn_bind_ok_iff {call : ℕ → Except ε α}
    {rest : ℕ → α → Except ε β} (hcall : Steady timeout call)
    (hrest : ∀ a, Steady timeout fun n => rest n a) {z : β} :
    EndsIn timeout (fun n => call n >>= rest n) (.ok z) ↔
      ∃ a, EndsIn timeout call (.ok a) ∧
        EndsIn timeout (fun n => rest n a) (.ok z) := by
  constructor
  · rintro ⟨-, n, hn⟩
    obtain ⟨a, ha, hz⟩ := bind_eq_ok.mp hn
    exact ⟨a, .of_ok ha, .of_ok hz⟩
  · rintro ⟨a, ha, hz⟩
    obtain ⟨m, hm⟩ := hcall.eventually ha
    obtain ⟨m', hm'⟩ := (hrest a).eventually hz
    apply EndsIn.of_ok (n := max m m')
    refine bind_eq_ok.mpr ⟨a, ?_, ?_⟩
    · exact hm _ (le_max_left m m')
    · exact hm' _ (le_max_right m m')

/-- Unfolding a procedure once spends one unit of its budget. -/
theorem SteadyAt.of_succ {m : ℕ} {call body : ℕ → Except ε α}
    (hsucc : ∀ n, call (n + 1) = body n) (hbody : SteadyAt timeout m body) :
    SteadyAt timeout (m + 1) call := by
  intro n hmn hne
  obtain ⟨j, rfl⟩ := Nat.exists_eq_add_of_le hmn
  have hj : m + 1 + j = m + j + 1 := by omega
  rw [hsucc] at hne
  rw [hj, hsucc, hsucc]
  exact hbody (m + j) (Nat.le_add_right m j) hne

/-- With no budget there is no answer to keep. -/
theorem steadyAt_zero {call : ℕ → Except ε α}
    (hzero : call 0 = .error timeout) : SteadyAt timeout 0 call :=
  fun _ _ hne => absurd hzero hne

end Fuel
