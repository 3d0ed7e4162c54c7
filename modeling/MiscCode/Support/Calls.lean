import Mathlib.Data.List.Infix

/-!
# Sequences of calls on a stateful component

A component answers a call and changes its state, or fails.  A specification
is a relation between a state, a call, its answer and the next state.  A
component that matches the specification on every single call matches it on
every sequence of calls; the matching may rely on a condition that the states
of the sequence are known to meet.
-/

namespace Calls

universe u v w

variable {ε : Type w} {κ τ : Type u} {σ ω : Type v}
variable {step : σ → κ → Except ε (ω × σ)}
variable {next : τ → κ → ω → τ → Prop}

/-- The answers to a sequence of calls, and the state after it. -/
def run (step : σ → κ → Except ε (ω × σ)) :
    σ → List κ → Except ε (List ω × σ)
  | s, [] => .ok ([], s)
  | s, c :: cs =>
      match step s c with
      | .error e => .error e
      | .ok (o, s') =>
          match run step s' cs with
          | .error e => .error e
          | .ok (os, s'') => .ok (o :: os, s'')

/-- The condition holds in every state the sequence of calls passes through. -/
def Throughout (step : σ → κ → Except ε (ω × σ)) (G : σ → Prop) (s : σ)
    (cs : List κ) : Prop :=
  ∀ pre os s', pre <+: cs → run step s pre = .ok (os, s') → G s'

/-- The specification allows these answers to a sequence of calls. -/
inductive Follows (next : τ → κ → ω → τ → Prop) :
    τ → List κ → List ω → τ → Prop where
  | nil (t : τ) : Follows next t [] [] t
  | cons {t t' t'' : τ} {c : κ} {cs : List κ} {o : ω} {os : List ω} :
      next t c o t' → Follows next t' cs os t'' →
        Follows next t (c :: cs) (o :: os) t''

@[simp] theorem run_nil (s : σ) : run step s [] = .ok ([], s) := rfl

theorem run_cons_eq (s : σ) (c : κ) (cs : List κ) :
    run step s (c :: cs) =
      (step s c >>= fun p =>
        run step p.2 cs >>= fun q => .ok (p.1 :: q.1, q.2)) := by
  cases hstep : step s c with
  | error e =>
      rw [run, hstep]
      rfl
  | ok p =>
      obtain ⟨o, s'⟩ := p
      simp only [run, hstep]
      change _ = (run step s' cs >>= fun q => .ok (o :: q.1, q.2))
      cases run step s' cs with
      | error e => rfl
      | ok q => rfl

theorem run_cons {s s' s'' : σ} {c : κ} {cs : List κ} {o : ω} {os : List ω}
    (hstep : step s c = .ok (o, s')) (hrun : run step s' cs = .ok (os, s'')) :
    run step s (c :: cs) = .ok (o :: os, s'') := by
  simp only [run, hstep, hrun]

theorem run_cons_inv {s s'' : σ} {c : κ} {cs : List κ} {os : List ω}
    (h : run step s (c :: cs) = .ok (os, s'')) :
    ∃ o os' s', step s c = .ok (o, s') ∧ run step s' cs = .ok (os', s'') ∧
      os = o :: os' := by
  unfold run at h
  cases hstep : step s c with
  | error e =>
      rw [hstep] at h
      cases h
  | ok p =>
      obtain ⟨o, s'⟩ := p
      simp only [hstep] at h
      cases hrest : run step s' cs with
      | error e =>
          rw [hrest] at h
          cases h
      | ok q =>
          obtain ⟨os', t⟩ := q
          simp only [hrest] at h
          obtain ⟨rfl, rfl⟩ := Prod.mk.inj (Except.ok.inj h)
          exact ⟨o, os', s', rfl, hrest, rfl⟩

/-! ## Conditions on the states of a run -/

theorem Throughout.start {G : σ → Prop} {s : σ} {cs : List κ}
    (h : Throughout step G s cs) : G s :=
  h [] [] s List.nil_prefix rfl

theorem Throughout.tail {G : σ → Prop} {s s' : σ} {c : κ} {cs : List κ} {o : ω}
    (h : Throughout step G s (c :: cs)) (hstep : step s c = .ok (o, s')) :
    Throughout step G s' cs := by
  intro pre os s'' hpre hrun
  apply h (c :: pre) (o :: os) s''
  · exact List.cons_prefix_cons.mpr ⟨rfl, hpre⟩
  · exact run_cons hstep hrun

theorem Throughout.nil {G : σ → Prop} {s : σ} (h : G s) :
    Throughout step G s [] := by
  intro pre os s' hpre hrun
  rw [List.prefix_nil.mp hpre, run_nil] at hrun
  obtain ⟨-, rfl⟩ := Prod.mk.inj (Except.ok.inj hrun)
  exact h

theorem Throughout.cons {G : σ → Prop} {s : σ} {c : κ} {cs : List κ}
    (h : G s) (hrest : ∀ o s', step s c = .ok (o, s') →
      Throughout step G s' cs) : Throughout step G s (c :: cs) := by
  intro pre os s'' hpre hrun
  rcases List.prefix_cons_iff.mp hpre with rfl | ⟨pre', rfl, hpre'⟩
  · rw [run_nil] at hrun
    obtain ⟨-, rfl⟩ := Prod.mk.inj (Except.ok.inj hrun)
    exact h
  · obtain ⟨o, os', s', hstep, hrun', -⟩ := run_cons_inv hrun
    exact hrest o s' hstep pre' os' s'' hpre' hrun'

theorem Throughout.mono {G : σ → Prop} {s : σ} {cs ds : List κ}
    (h : Throughout step G s ds) (hpre : cs <+: ds) :
    Throughout step G s cs :=
  fun pre os s' hcs hrun => h pre os s' (hcs.trans hpre) hrun

/-! ## Matching a specification -/

/-- A component that matches the specification call by call, in states that
meet `G`, matches it on every sequence of calls that stays within `G`. -/
theorem run_follows {R : σ → τ → Prop} {G : σ → Prop}
    (hcall : ∀ s t c, R s t → G s →
      ∃ o s' t', step s c = .ok (o, s') ∧ next t c o t' ∧ R s' t')
    {cs : List κ} {s : σ} {t : τ} (hst : R s t)
    (hG : Throughout step G s cs) :
    ∃ os s' t', run step s cs = .ok (os, s') ∧ Follows next t cs os t' ∧
      R s' t' := by
  induction cs generalizing s t with
  | nil => exact ⟨[], s, t, rfl, .nil t, hst⟩
  | cons c cs ih =>
      obtain ⟨o, s', t', hstep, hnext, hst'⟩ := hcall s t c hst hG.start
      obtain ⟨os, s'', t'', hrun, hfollows, hst''⟩ := ih hst' (hG.tail hstep)
      exact ⟨o :: os, s'', t'', run_cons hstep hrun, .cons hnext hfollows,
        hst''⟩

/-! ## Specified runs -/

theorem follows_nil_iff {t t' : τ} {os : List ω} :
    Follows next t [] os t' ↔ os = [] ∧ t' = t := by
  constructor
  · intro h
    cases h
    exact ⟨rfl, rfl⟩
  · rintro ⟨rfl, rfl⟩
    exact .nil t'

theorem follows_cons_iff {t t'' : τ} {c : κ} {cs : List κ} {os : List ω} :
    Follows next t (c :: cs) os t'' ↔
      ∃ o os' t', os = o :: os' ∧ next t c o t' ∧
        Follows next t' cs os' t'' := by
  constructor
  · intro h
    cases h with
    | cons hnext hrest => exact ⟨_, _, _, rfl, hnext, hrest⟩
  · rintro ⟨o, os', t', rfl, hnext, hrest⟩
    exact .cons hnext hrest

/-- The answers to two sequences in a row. -/
theorem follows_append_iff {t t'' : τ} {cs ds : List κ} {os : List ω} :
    Follows next t (cs ++ ds) os t'' ↔
      ∃ os₁ os₂ t', os = os₁ ++ os₂ ∧ Follows next t cs os₁ t' ∧
        Follows next t' ds os₂ t'' := by
  induction cs generalizing t os with
  | nil =>
      constructor
      · intro h
        exact ⟨[], os, t, rfl, .nil t, h⟩
      · rintro ⟨os₁, os₂, t', rfl, hnil, hrest⟩
        obtain ⟨rfl, rfl⟩ := follows_nil_iff.mp hnil
        exact hrest
  | cons c cs ih =>
      constructor
      · intro h
        obtain ⟨o, os', t', rfl, hnext, hrest⟩ := follows_cons_iff.mp h
        obtain ⟨os₁, os₂, u, rfl, hleft, hright⟩ := ih.mp hrest
        exact ⟨o :: os₁, os₂, u, rfl, .cons hnext hleft, hright⟩
      · rintro ⟨os₁, os₂, u, rfl, hleft, hright⟩
        obtain ⟨o, os', t', rfl, hnext, hrest⟩ := follows_cons_iff.mp hleft
        exact .cons hnext (ih.mpr ⟨os', os₂, u, rfl, hrest, hright⟩)

end Calls
