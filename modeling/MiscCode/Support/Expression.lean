import MiscCode.Support.Fuel

/-!
# Expressions run on a machine

An expression applies binary operators to literals.  A machine says what each
literal and each call of an operator answers; a call may fail, and it runs
under a budget.  The rule proved here turns an invariant of every number an
expression obtains into a guard on the calls the expression makes: it asks for
one fact about literals and one about a single call.  Two machines run side by
side are again a machine, so the same rule also compares two machines.
-/

universe u v

/-- Binary operators `O` over literals `L`. -/
inductive Expression (L O : Type u) where
  | lit (l : L)
  | app (o : O) (e f : Expression L O)
  deriving DecidableEq, Repr

namespace Expression

/-- The answers to literals, and to calls of an operator under a budget. -/
structure Machine (L O ε : Type u) (α : Type v) where
  lit : L → Except ε α
  op : O → ℕ → α → α → Except ε α

variable {L O ε : Type u} {α β : Type v} {timeout : ε}

/-- Both operands first, then the call. -/
def eval (M : Machine L O ε α) (fuel : ℕ) : Expression L O → Except ε α
  | .lit l => M.lit l
  | .app o e f => eval M fuel e >>= fun x => eval M fuel f >>= M.op o fuel x

/-- Evaluation returns `v`. -/
def Gives (timeout : ε) (M : Machine L O ε α) (e : Expression L O) (v : α) :
    Prop :=
  Fuel.EndsIn timeout (fun fuel => eval M fuel e) (.ok v)

/-- The call returns `z`. -/
def Machine.Calls (timeout : ε) (M : Machine L O ε α) (o : O) (x y z : α) :
    Prop :=
  Fuel.EndsIn timeout (fun fuel => M.op o fuel x y) (.ok z)

/-- No answer of the machine depends on the budget. -/
def Machine.Steady (timeout : ε) (M : Machine L O ε α) : Prop :=
  ∀ o x y, Fuel.Steady timeout fun fuel => M.op o fuel x y

/-! ## Evaluation without budgets -/

theorem eval_steady {M : Machine L O ε α} (hM : M.Steady timeout)
    (e : Expression L O) : Fuel.Steady timeout fun fuel => eval M fuel e := by
  induction e with
  | lit l => exact fun m => Fuel.steadyAt_const _ m
  | app o e f ihe ihf =>
      exact ihe.bind fun x => ihf.bind fun y => hM o x y

theorem Gives.unique {M : Machine L O ε α} (hM : M.Steady timeout)
    {e : Expression L O} {v w : α} (hv : Gives timeout M e v)
    (hw : Gives timeout M e w) : v = w :=
  Except.ok.inj ((eval_steady hM e).unique hv hw)

theorem gives_lit {M : Machine L O ε α} {l : L} {v : α} :
    Gives timeout M (.lit l) v ↔ M.lit l = .ok v := by
  constructor
  · rintro ⟨-, _, h⟩
    exact h
  · intro h
    exact .of_ok (n := 0) h

theorem gives_app {M : Machine L O ε α} (hM : M.Steady timeout) {o : O}
    {e f : Expression L O} {v : α} :
    Gives timeout M (.app o e f) v ↔
      ∃ x y, Gives timeout M e x ∧ Gives timeout M f y ∧
        M.Calls timeout o x y v := by
  have hrest : ∀ x, Fuel.Steady timeout fun fuel =>
      eval M fuel f >>= M.op o fuel x :=
    fun x => (eval_steady hM f).bind fun y => hM o x y
  constructor
  · intro h
    obtain ⟨x, hx, h⟩ := (Fuel.endsIn_bind_ok_iff (eval_steady hM e) hrest).mp h
    obtain ⟨y, hy, h⟩ := (Fuel.endsIn_bind_ok_iff (eval_steady hM f)
      fun y => hM o x y).mp h
    exact ⟨x, y, hx, hy, h⟩
  · rintro ⟨x, y, hx, hy, h⟩
    have h := (Fuel.endsIn_bind_ok_iff (eval_steady hM f)
      fun y => hM o x y).mpr ⟨y, hy, h⟩
    exact (Fuel.endsIn_bind_ok_iff (eval_steady hM e) hrest).mpr ⟨x, hx, h⟩

/-! ## Invariants of all numbers, guards on all calls -/

/-- Every number obtained on the way, the last one included, satisfies `P`. -/
def Everywhere (timeout : ε) (M : Machine L O ε α) (P : α → Prop) :
    Expression L O → Prop
  | .lit l => ∀ x, M.lit l = .ok x → P x
  | .app o e f =>
      Everywhere timeout M P e ∧ Everywhere timeout M P f ∧
        ∀ z, Gives timeout M (.app o e f) z → P z

/-- A condition on literals and one on the operands of a call. -/
structure Guard (L O : Type u) (α : Type v) where
  lit : L → Prop
  op : O → α → α → Prop

/-- Every literal and every call of the expression meets the guard. -/
def Meets (timeout : ε) (M : Machine L O ε α) (G : Guard L O α) :
    Expression L O → Prop
  | .lit l => G.lit l
  | .app o e f =>
      Meets timeout M G e ∧ Meets timeout M G f ∧
        ∀ x y, Gives timeout M e x → Gives timeout M f y → G.op o x y

theorem Everywhere.last {M : Machine L O ε α} {P : α → Prop}
    {e : Expression L O} (h : Everywhere timeout M P e) {v : α}
    (hv : Gives timeout M e v) : P v := by
  cases e with
  | lit l => exact h v (gives_lit.mp hv)
  | app o e f => exact h.2.2 v hv

/-- The guard is exact for the invariant: on literals, and on each call whose
operands satisfy the invariant. -/
structure Guard.Exact (timeout : ε) (M : Machine L O ε α) (P : α → Prop)
    (G : Guard L O α) : Prop where
  lit : ∀ l x, M.lit l = .ok x → (P x ↔ G.lit l)
  op : ∀ o x y z, P x → P y → M.Calls timeout o x y z → (P z ↔ G.op o x y)

/-- An evaluation that returns keeps the invariant throughout exactly when all
of its calls meet the guard. -/
theorem everywhere_iff_meets {M : Machine L O ε α} (hM : M.Steady timeout)
    {P : α → Prop} {G : Guard L O α} (hG : G.Exact timeout M P)
    {e : Expression L O} {v : α} (hv : Gives timeout M e v) :
    Everywhere timeout M P e ↔ Meets timeout M G e := by
  induction e generalizing v with
  | lit l =>
      have hlit := hG.lit l v (gives_lit.mp hv)
      constructor
      · intro h
        exact hlit.mp (h v (gives_lit.mp hv))
      · intro h x hx
        exact (hG.lit l x hx).mpr h
  | app o e f ihe ihf =>
      obtain ⟨x, y, hx, hy, hcall⟩ := (gives_app hM).mp hv
      have hop := hG.op o x y v
      constructor
      · rintro ⟨he, hf, hlast⟩
        refine ⟨(ihe hx).mp he, (ihf hy).mp hf, ?_⟩
        intro x' y' hx' hy'
        obtain rfl := hx.unique hM hx'
        obtain rfl := hy.unique hM hy'
        exact (hop (he.last hx) (hf.last hy) hcall).mp (hlast v hv)
      · rintro ⟨he, hf, hmeets⟩
        have he' := (ihe hx).mpr he
        have hf' := (ihf hy).mpr hf
        refine ⟨he', hf', ?_⟩
        intro z hz
        obtain rfl := hv.unique hM hz
        exact (hop (he'.last hx) (hf'.last hy) hcall).mpr
          (hmeets x y hx hy)

/-! ## Two machines side by side -/

/-- Both machines answer the same literals and calls. -/
def Machine.pair (M : Machine L O ε α) (M' : Machine L O ε β) :
    Machine L O ε (α × β) where
  lit l := M.lit l >>= fun x => M'.lit l >>= fun x' => .ok (x, x')
  op o fuel p q :=
    M.op o fuel p.1 q.1 >>= fun z =>
      M'.op o fuel p.2 q.2 >>= fun z' => .ok (z, z')

section Pair

variable {M : Machine L O ε α} {M' : Machine L O ε β}

theorem pair_steady (hM : M.Steady timeout) (hM' : M'.Steady timeout) :
    (M.pair M').Steady timeout :=
  fun o p q => (hM o p.1 q.1).bind fun _ =>
    (hM' o p.2 q.2).bind fun _ m => Fuel.steadyAt_const _ m

theorem lit_pair {l : L} {p : α × β} :
    (M.pair M').lit l = .ok p ↔ M.lit l = .ok p.1 ∧ M'.lit l = .ok p.2 := by
  rw [Machine.pair, Fuel.bind_eq_ok]
  constructor
  · rintro ⟨x, hx, h⟩
    obtain ⟨x', hx', h⟩ := Fuel.bind_eq_ok.mp h
    obtain rfl := Except.ok.inj h
    exact ⟨hx, hx'⟩
  · rintro ⟨hx, hx'⟩
    exact ⟨p.1, hx, Fuel.bind_eq_ok.mpr ⟨p.2, hx', rfl⟩⟩

theorem calls_pair (hM : M.Steady timeout) (hM' : M'.Steady timeout) {o : O}
    {p q r : α × β} :
    (M.pair M').Calls timeout o p q r ↔
      M.Calls timeout o p.1 q.1 r.1 ∧ M'.Calls timeout o p.2 q.2 r.2 := by
  have hconst : ∀ z (z' : β), Fuel.Steady timeout fun _ =>
      (.ok (z, z') : Except ε (α × β)) :=
    fun z z' m => Fuel.steadyAt_const _ m
  have hrest : ∀ z, Fuel.Steady timeout fun fuel =>
      M'.op o fuel p.2 q.2 >>= fun z' => (.ok (z, z') : Except ε (α × β)) :=
    fun z => (hM' o p.2 q.2).bind (hconst z)
  constructor
  · intro h
    obtain ⟨z, hz, h⟩ := (Fuel.endsIn_bind_ok_iff (hM o p.1 q.1) hrest).mp h
    obtain ⟨z', hz', -, _, h⟩ :=
      (Fuel.endsIn_bind_ok_iff (hM' o p.2 q.2) (hconst z)).mp h
    obtain rfl := Except.ok.inj h
    exact ⟨hz, hz'⟩
  · rintro ⟨hz, hz'⟩
    have hlast : Fuel.EndsIn timeout (fun _ => .ok (r.1, r.2))
        (.ok r : Except ε (α × β)) := .of_ok (n := 0) rfl
    have h := (Fuel.endsIn_bind_ok_iff (hM' o p.2 q.2) (hconst r.1)).mpr
      ⟨r.2, hz', hlast⟩
    exact (Fuel.endsIn_bind_ok_iff (hM o p.1 q.1) hrest).mpr ⟨r.1, hz, h⟩

/-- The pair returns what each machine returns. -/
theorem gives_pair (hM : M.Steady timeout) (hM' : M'.Steady timeout)
    {e : Expression L O} {p : α × β} :
    Gives timeout (M.pair M') e p ↔
      Gives timeout M e p.1 ∧ Gives timeout M' e p.2 := by
  induction e generalizing p with
  | lit l => rw [gives_lit, gives_lit, gives_lit, lit_pair]
  | app o e f ihe ihf =>
      rw [gives_app (pair_steady hM hM'), gives_app hM, gives_app hM']
      constructor
      · rintro ⟨x, y, hx, hy, h⟩
        obtain ⟨hx, hx'⟩ := ihe.mp hx
        obtain ⟨hy, hy'⟩ := ihf.mp hy
        obtain ⟨h, h'⟩ := (calls_pair hM hM').mp h
        exact ⟨⟨x.1, y.1, hx, hy, h⟩, ⟨x.2, y.2, hx', hy', h'⟩⟩
      · rintro ⟨⟨x, y, hx, hy, h⟩, ⟨x', y', hx', hy', h'⟩⟩
        exact ⟨(x, x'), (y, y'), ihe.mpr ⟨hx, hx'⟩, ihf.mpr ⟨hy, hy'⟩,
          (calls_pair hM hM').mpr ⟨h, h'⟩⟩

end Pair

end Expression
