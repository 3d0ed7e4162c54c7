import MiscCode.Support.Calls

/-!
# Two computations side by side

Two computations are paired when they fail in the same way or return related
values.  Pairing goes through sequencing and branching, so a relation between
the states of two components that every call keeps is kept by every sequence of
calls.
-/

namespace TwoRuns

universe u v w

variable {ε : Type w} {α α' β β' : Type v}

/-- The same failure, or related values. -/
inductive Paired (R : α → α' → Prop) : Except ε α → Except ε α' → Prop where
  | ok {a : α} {a' : α'} : R a a' → Paired R (.ok a) (.ok a')
  | error (e : ε) : Paired R (.error e) (.error e)

variable {R : α → α' → Prop} {S : β → β' → Prop}
variable {x : Except ε α} {x' : Except ε α'}

theorem Paired.imp {R' : α → α' → Prop} (h : Paired R x x')
    (hR : ∀ a a', R a a' → R' a a') : Paired R' x x' := by
  cases h with
  | ok ha => exact .ok (hR _ _ ha)
  | error e => exact .error e

theorem Paired.exists_ok {a : α} (h : Paired R x x') (hx : x = .ok a) :
    ∃ a', x' = .ok a' ∧ R a a' := by
  subst hx
  cases h with
  | ok ha => exact ⟨_, rfl, ha⟩

/-- Related values are passed on to what comes next. -/
theorem Paired.bind {f : α → Except ε β} {f' : α' → Except ε β'}
    (h : Paired R x x')
    (hf : ∀ a a', x = .ok a → R a a' → Paired S (f a) (f' a')) :
    Paired S (x >>= f) (x' >>= f') := by
  cases h with
  | ok ha => exact hf _ _ rfl ha
  | error e => exact .error e

/-- Both computations begin with the same one. -/
theorem paired_bind_same {f : α → Except ε β} {f' : α → Except ε β'}
    (hf : ∀ a, x = .ok a → Paired S (f a) (f' a)) :
    Paired S (x >>= f) (x >>= f') := by
  cases x with
  | ok a => exact hf a rfl
  | error e => exact .error e

/-- Both computations take the same branch. -/
theorem paired_ite {p p' : Prop} [Decidable p] [Decidable p']
    {y : Except ε α} {y' : Except ε α'} (hp : p' ↔ p)
    (hthen : p → Paired R x x') (helse : ¬ p → Paired R y y') :
    Paired R (if p then x else y) (if p' then x' else y') := by
  by_cases h : p
  · rw [if_pos h, if_pos (hp.mpr h)]
    exact hthen h
  · rw [if_neg h, if_neg fun h' => h (hp.mp h')]
    exact helse h

/-! ## Sequences of calls -/

variable {κ κ' : Type u} {σ σ' ω ω' : Type v}
variable {step : σ → κ → Except ε (ω × σ)}
variable {step' : σ' → κ' → Except ε (ω' × σ')}

/-- A relation that every call keeps is kept by every sequence of calls. -/
theorem run_paired {R : σ → σ' → Prop} {m : κ → κ'} {cs : List κ}
    (hcall : ∀ c ∈ cs, ∀ s s', R s s' →
      Paired (fun p p' => R p.2 p'.2) (step s c) (step' s' (m c)))
    {s : σ} {s' : σ'} (hs : R s s') :
    Paired (fun p p' => R p.2 p'.2) (Calls.run step s cs)
      (Calls.run step' s' (cs.map m)) := by
  induction cs generalizing s s' with
  | nil => exact .ok hs
  | cons c cs ih =>
      have hrest : ∀ d ∈ cs, ∀ s s', R s s' →
          Paired (fun p p' => R p.2 p'.2) (step s d) (step' s' (m d)) :=
        fun d hd => hcall d (List.mem_cons_of_mem c hd)
      rw [List.map_cons, Calls.run_cons_eq, Calls.run_cons_eq]
      refine (hcall c List.mem_cons_self s s' hs).bind fun p p' _ hp => ?_
      refine (ih hrest hp).bind fun q q' _ hq => ?_
      exact .ok hq

end TwoRuns
