import MiscCode.Support.Fuel

/-!
# Loops run under a budget

A turn of a loop computes the state of the next turn, or leaves the loop with a
result.  A turn may itself need a budget, as it does when it runs an inner
loop.  A loop whose turns are steady is steady, and an invariant whose rank
every turn lowers gives the result of the whole loop.
-/

namespace WhileLoop

open Fuel

universe u v

variable {ε : Type u} {σ ρ : Type v} {timeout : ε}

/-- What a turn comes to. -/
inductive Turn (σ ρ : Type v) where
  | again (s : σ)
  | leave (r : ρ)

/-- The loop from the state `s` on. -/
def loop (timeout : ε) (turn : ℕ → σ → Except ε (Turn σ ρ)) :
    ℕ → σ → Except ε ρ
  | 0, _ => .error timeout
  | fuel + 1, s => do
      match ← turn fuel s with
      | .again s' => loop timeout turn fuel s'
      | .leave r => .ok r

/-- A turn keeps the invariant with a smaller rank, or leaves the loop as
wanted. -/
def Keeps (Inv : ℕ → σ → Prop) (Post : ρ → Prop) (v : ℕ) : Turn σ ρ → Prop
  | .again s' => ∃ v' < v, Inv v' s'
  | .leave r => Post r

variable {turn : ℕ → σ → Except ε (Turn σ ρ)}

/-! ## One turn -/

theorem loop_again {fuel : ℕ} {s s' : σ} (h : turn fuel s = .ok (.again s')) :
    loop timeout turn (fuel + 1) s = loop timeout turn fuel s' := by
  rw [loop, h]
  rfl

theorem loop_leave {fuel : ℕ} {s : σ} {r : ρ}
    (h : turn fuel s = .ok (.leave r)) :
    loop timeout turn (fuel + 1) s = .ok r := by
  rw [loop, h]
  rfl

theorem loop_error {fuel : ℕ} {s : σ} {e : ε} (h : turn fuel s = .error e) :
    loop timeout turn (fuel + 1) s = .error e := by
  rw [loop, h]
  rfl

theorem endsIn_leave {s : σ} {r : ρ}
    (h : EndsIn timeout (fun n => turn n s) (.ok (.leave r))) :
    EndsIn timeout (fun n => loop timeout turn n s) (.ok r) := by
  obtain ⟨-, fuel, hfuel⟩ := h
  exact .of_ok (loop_leave hfuel)

/-- A loop that keeps an invariant and always goes round again never ends. -/
theorem loop_forever {Inv : σ → Prop}
    (hagain : ∀ fuel s, Inv s → ∃ s', turn fuel s = .ok (.again s') ∧ Inv s')
    (fuel : ℕ) {s : σ} (hs : Inv s) :
    loop timeout turn fuel s = .error timeout := by
  induction fuel generalizing s with
  | zero => rfl
  | succ fuel ih =>
      obtain ⟨s', hturn, hs'⟩ := hagain fuel s hs
      rw [loop_again hturn]
      exact ih hs'

/-! ## Loops with steady turns -/

section Steady

variable (hturn : ∀ s, Steady timeout fun n => turn n s)
include hturn

theorem steadyAt_loop (m : ℕ) :
    ∀ s, SteadyAt timeout m fun n => loop timeout turn n s := by
  induction m with
  | zero => exact fun s => steadyAt_zero rfl
  | succ m ih =>
      intro s
      apply SteadyAt.of_succ (fun n => by rw [loop])
      apply SteadyAt.bind (hturn s m)
      intro t
      cases t with
      | again s' => exact ih s'
      | leave r => exact steadyAt_const _ _

theorem steady_loop (s : σ) : Steady timeout fun n => loop timeout turn n s :=
  fun m => steadyAt_loop hturn m s

/-- A loop that goes round again ends as it does from the next state. -/
theorem endsIn_again {s s' : σ} {o : Except ε ρ}
    (h : EndsIn timeout (fun n => turn n s) (.ok (.again s'))) :
    EndsIn timeout (fun n => loop timeout turn n s) o ↔
      EndsIn timeout (fun n => loop timeout turn n s') o := by
  constructor
  · rintro ⟨hne, fuel, hfuel⟩
    cases fuel with
    | zero => exact absurd hfuel.symm hne
    | succ fuel =>
        have hturned : turn fuel s = .ok (.again s') := by
          apply (hturn s).unique ⟨?_, fuel, rfl⟩ h
          intro htime
          exact hne (hfuel.symm.trans (loop_error htime))
        exact ⟨hne, fuel, (loop_again hturned).symm.trans hfuel⟩
  · rintro ⟨hne, hloop⟩
    obtain ⟨m, hm⟩ := (hturn s).eventually h
    obtain ⟨m', hm'⟩ := (steady_loop hturn s').eventually ⟨hne, hloop⟩
    refine ⟨hne, max m m' + 1, ?_⟩
    exact (loop_again (hm _ (le_max_left m m'))).trans
      (hm' _ (le_max_right m m'))

/-- A loop whose turns keep an invariant and lower its rank ends as wanted. -/
theorem loop_ends (Inv : ℕ → σ → Prop) {Post : ρ → Prop}
    (hkeeps : ∀ v s, Inv v s → ∃ t,
      EndsIn timeout (fun n => turn n s) (.ok t) ∧ Keeps Inv Post v t)
    {v : ℕ} {s : σ} (hs : Inv v s) :
    ∃ r, EndsIn timeout (fun n => loop timeout turn n s) (.ok r) ∧ Post r := by
  induction v using Nat.strong_induction_on generalizing s with
  | _ v ih =>
      obtain ⟨t, ht, hpost⟩ := hkeeps v s hs
      cases t with
      | leave r => exact ⟨r, endsIn_leave ht, hpost⟩
      | again s' =>
          obtain ⟨v', hlt, hinv⟩ := hpost
          obtain ⟨r, hr, hpost⟩ := ih v' hlt hinv
          exact ⟨r, (endsIn_again hturn ht).mpr hr, hpost⟩

end Steady

/-! ## Turns without a budget -/

section Plain

variable {plain : σ → Except ε (Turn σ ρ)}

theorem steady_const (plain : σ → Except ε (Turn σ ρ)) (s : σ) :
    Steady timeout fun _ => plain s :=
  steadyAt_const _

theorem endsIn_of_again {s s' : σ} {o : Except ε ρ}
    (h : plain s = .ok (.again s')) :
    EndsIn timeout (fun n => loop timeout (fun _ => plain) n s) o ↔
      EndsIn timeout (fun n => loop timeout (fun _ => plain) n s') o :=
  endsIn_again (steady_const plain) (.of_ok (n := 0) h)

theorem endsIn_of_leave {s : σ} {r : ρ} (h : plain s = .ok (.leave r)) :
    EndsIn timeout (fun n => loop timeout (fun _ => plain) n s) (.ok r) :=
  endsIn_leave (.of_ok (n := 0) h)

/-- A rank that every turn lowers is a budget that is large enough. -/
theorem loop_within (Inv : ℕ → σ → Prop) {Post : ρ → Prop}
    (hkeeps : ∀ v s, Inv v s → ∃ t, plain s = .ok t ∧ Keeps Inv Post v t)
    {v fuel : ℕ} {s : σ} (hs : Inv v s) (hfuel : v < fuel) :
    ∃ r, loop timeout (fun _ => plain) fuel s = .ok r ∧ Post r := by
  induction fuel generalizing v s with
  | zero => exact absurd hfuel (Nat.not_lt_zero v)
  | succ fuel ih =>
      obtain ⟨t, ht, hpost⟩ := hkeeps v s hs
      cases t with
      | leave r => exact ⟨r, loop_leave ht, hpost⟩
      | again s' =>
          obtain ⟨v', hlt, hinv⟩ := hpost
          obtain ⟨r, hr, hpost⟩ := ih hinv (by omega)
          exact ⟨r, (loop_again ht).trans hr, hpost⟩

end Plain

end WhileLoop
