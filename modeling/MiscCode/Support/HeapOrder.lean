import Mathlib.Data.Multiset.Range
import Mathlib.Logic.Equiv.Basic
import Mathlib.Order.Defs.Unbundled

/-!
# Heap order on a binary tree laid out in an array

The tree has a value `f i` at every position `i < n`; position `0` is the root
and the children of `p` are `2 * p + 1` and `2 * p + 2`.  The order is any
total transitive relation, so that one development serves a heap with the
least and a heap with the greatest value at its root.

An element out of place moves along one path.  On its way up only the link
above it may be out of order, on its way down only the links below it; each
exchange along the path keeps that, and the last position of the path leaves
the whole tree in order.
-/

namespace HeapOrder

universe u

variable {α : Type u} {r : α → α → Prop} {f g : ℕ → α} {n i c : ℕ}

/-- The position above `i`; the root is its own. -/
def parent (i : ℕ) : ℕ := (i - 1) / 2

/-- `c` is a position right below `p`. -/
def IsChild (c p : ℕ) : Prop :=
  0 < c ∧ parent c = p

theorem parent_lt (hi : 0 < i) : parent i < i := by
  unfold parent
  omega

theorem IsChild.lt {p : ℕ} (h : IsChild c p) : p < c := by
  obtain ⟨hc, rfl⟩ := h
  exact parent_lt hc

theorem isChild_iff {p : ℕ} : IsChild c p ↔ c = 2 * p + 1 ∨ c = 2 * p + 2 := by
  unfold IsChild parent
  omega

/-- Every position is in order with the one above it. -/
def Ordered (r : α → α → Prop) (f : ℕ → α) (n : ℕ) : Prop :=
  ∀ ⦃c⦄, 0 < c → c < n → r (f (parent c)) (f c)

/-- The element at `i` is on its way up: every other link is in order, and
what is below `i` stays in order when the element above `i` comes down. -/
structure Rising (r : α → α → Prop) (f : ℕ → α) (n i : ℕ) : Prop where
  others : ∀ ⦃c⦄, 0 < c → c < n → c ≠ i → r (f (parent c)) (f c)
  across : 0 < i → ∀ ⦃c⦄, IsChild c i → c < n → r (f (parent i)) (f c)

/-- The element at `i` is on its way down: every link that does not start at
`i` is in order, and what is below `i` is in order with what is above `i`. -/
structure Sinking (r : α → α → Prop) (f : ℕ → α) (n i : ℕ) : Prop where
  others : ∀ ⦃c⦄, 0 < c → c < n → parent c ≠ i → r (f (parent c)) (f c)
  across : 0 < i → ∀ ⦃c⦄, IsChild c i → c < n → r (f (parent i)) (f c)

theorem Ordered.congr (h : Ordered r f n) (hfg : ∀ k < n, f k = g k) :
    Ordered r g n := by
  intro c hc hcn
  rw [← hfg c hcn, ← hfg (parent c) ((parent_lt hc).trans hcn)]
  exact h hc hcn

/-! ## The root -/

/-- The root comes before every element of an ordered tree. -/
theorem Ordered.root [Std.Total r] [IsTrans α r] (h : Ordered r f n) :
    ∀ i < n, r (f 0) (f i) := by
  intro i
  induction i using Nat.strong_induction_on with
  | h i ih =>
      intro hin
      by_cases hi : i = 0
      · subst hi
        exact refl_of r (f 0)
      · have hpos : 0 < i := Nat.pos_of_ne_zero hi
        have hlt : parent i < i := parent_lt hpos
        have habove : r (f 0) (f (parent i)) :=
          ih (parent i) hlt (hlt.trans hin)
        exact trans_of r habove (h hpos hin)

/-! ## On the way up -/

/-- An element in order with the one above it has arrived. -/
theorem Rising.ordered (h : Rising r f n i)
    (hi : 0 < i → r (f (parent i)) (f i)) : Ordered r f n := by
  intro c hc hcn
  by_cases hci : c = i
  · subst hci
    exact hi hc
  · exact h.others hc hcn hci

/-- Exchanging the element with the one above it moves it one level up. -/
theorem Rising.exchange [IsTrans α r] (h : Rising r f n i) (hi : 0 < i)
    (hin : i < n) (hup : r (f i) (f (parent i))) :
    Rising r (f ∘ Equiv.swap (parent i) i) n (parent i) := by
  have hp : parent i < i := parent_lt hi
  have hother : ∀ k, k ≠ parent i → k ≠ i →
      (f ∘ Equiv.swap (parent i) i) k = f k := by
    intro k hkp hki
    simp only [Function.comp, Equiv.swap_apply_of_ne_of_ne hkp hki]
  have hat_i : (f ∘ Equiv.swap (parent i) i) i = f (parent i) := by simp
  have hat_p : (f ∘ Equiv.swap (parent i) i) (parent i) = f i := by simp
  constructor
  · intro c hc hcn hcp
    by_cases hci : c = i
    · subst hci
      rw [hat_i, hat_p]
      exact hup
    · rw [hother c hcp hci]
      by_cases hpi : parent c = i
      · -- the link below `i`: the old parent has come down to `i`
        rw [hpi, hat_i]
        exact h.across hi ⟨hc, hpi⟩ hcn
      · have hlink : r (f (parent c)) (f c) := h.others hc hcn hci
        by_cases hpp : parent c = parent i
        · rw [hpp, hat_p]
          rw [hpp] at hlink
          exact trans_of r hup hlink
        · rw [hother (parent c) hpp hpi]
          exact hlink
  · intro hpos c hc hcn
    have hpp : parent (parent i) < parent i := parent_lt hpos
    have hlink : r (f (parent (parent i))) (f (parent i)) :=
      h.others hpos (hp.trans hin) hp.ne
    rw [hother (parent (parent i)) hpp.ne (hpp.trans hp).ne]
    by_cases hci : c = i
    · subst hci
      rw [hat_i]
      exact hlink
    · rw [hother c hc.lt.ne' hci]
      have hbelow : r (f (parent c)) (f c) := h.others hc.1 hcn hci
      rw [hc.2] at hbelow
      exact trans_of r hlink hbelow

/-! ## On the way down -/

/-- An element in order with those below it has arrived. -/
theorem Sinking.ordered (h : Sinking r f n i)
    (hi : ∀ ⦃c⦄, IsChild c i → c < n → r (f i) (f c)) : Ordered r f n := by
  intro c hc hcn
  by_cases hci : parent c = i
  · rw [hci]
    exact hi ⟨hc, hci⟩ hcn
  · exact h.others hc hcn hci

/-- Exchanging the element with the first of its children moves it one level
down. -/
theorem Sinking.exchange (h : Sinking r f n i) (hc : IsChild c i) (hcn : c < n)
    (hfirst : ∀ ⦃s⦄, IsChild s i → s < n → r (f c) (f s))
    (hdown : r (f c) (f i)) : Sinking r (f ∘ Equiv.swap c i) n c := by
  have hic : i < c := hc.lt
  have hother : ∀ k, k ≠ c → k ≠ i → (f ∘ Equiv.swap c i) k = f k := by
    intro k hkc hki
    simp only [Function.comp, Equiv.swap_apply_of_ne_of_ne hkc hki]
  have hat_i : (f ∘ Equiv.swap c i) i = f c := by simp
  have hat_c : (f ∘ Equiv.swap c i) c = f i := by simp
  constructor
  · intro d hd hdn hpc
    by_cases hdc : d = c
    · subst hdc
      rw [hc.2, hat_i, hat_c]
      exact hdown
    · by_cases hdi : d = i
      · -- the link above `i`: the child has come up to `i`
        subst hdi
        rw [hat_i, hother (parent d) hpc (parent_lt hd).ne]
        exact h.across hd hc hcn
      · rw [hother d hdc hdi]
        by_cases hpi : parent d = i
        · rw [hpi, hat_i]
          exact hfirst ⟨hd, hpi⟩ hdn
        · rw [hother (parent d) hpc hpi]
          exact h.others hd hdn hpi
  · intro _ d hd hdn
    have hlink : r (f (parent d)) (f d) := by
      apply h.others hd.1 hdn
      rw [hd.2]
      exact hic.ne'
    rw [hc.2, hat_i, hother d hd.lt.ne' (hic.trans hd.lt).ne']
    rw [hd.2] at hlink
    exact hlink

/-! ## Adding a last element and removing the first -/

/-- A new last element is on its way up. -/
theorem Ordered.rising (h : Ordered r f n) (v : α) :
    Rising r (Function.update f n v) (n + 1) n := by
  constructor
  · intro c hc hcn hne
    have hlt : c < n := by omega
    have hp : parent c ≠ n := ((parent_lt hc).trans hlt).ne
    rw [Function.update_of_ne hne, Function.update_of_ne hp]
    exact h hc hlt
  · intro _ c hc hcn
    have hlt : n < c := hc.lt
    omega

/-- The last element, put at the root, is on its way down. -/
theorem Ordered.sinking (h : Ordered r f (n + 1)) :
    Sinking r (Function.update f 0 (f n)) n 0 := by
  constructor
  · intro c hc hcn hp
    rw [Function.update_of_ne hc.ne', Function.update_of_ne hp]
    exact h hc (Nat.lt_succ_of_lt hcn)
  · intro h0
    exact absurd h0 (Nat.lt_irrefl 0)

/-! ## What the tree holds -/

/-- The elements of the tree. -/
def held (f : ℕ → α) (n : ℕ) : Multiset α :=
  (Multiset.range n).map f

theorem held_succ (f : ℕ → α) (n : ℕ) : held f (n + 1) = f n ::ₘ held f n := by
  unfold held
  rw [Multiset.range_succ, Multiset.map_cons]

theorem held_congr (h : ∀ k < n, f k = g k) : held f n = held g n := by
  apply Multiset.map_congr rfl
  intro k hk
  exact h k (Multiset.mem_range.mp hk)

theorem mem_held {x : α} : x ∈ held f n ↔ ∃ k < n, f k = x := by
  simp only [held, Multiset.mem_map, Multiset.mem_range]

/-- An exchange keeps what the tree holds. -/
theorem held_exchange {a b : ℕ} (ha : a < n) (hb : b < n) :
    held (f ∘ Equiv.swap a b) n = held f n := by
  have hswap : (Multiset.range n).map (Equiv.swap a b) = Multiset.range n := by
    have hnodup : ((Multiset.range n).map (Equiv.swap a b)).Nodup :=
      (Multiset.nodup_range n).map (Equiv.swap a b).injective
    rw [Multiset.Nodup.ext hnodup (Multiset.nodup_range n)]
    intro k
    simp only [Multiset.mem_map, Multiset.mem_range]
    constructor
    · rintro ⟨j, hj, rfl⟩
      rw [Equiv.swap_apply_def]
      split_ifs <;> assumption
    · intro hk
      refine ⟨Equiv.swap a b k, ?_, Equiv.swap_apply_self a b k⟩
      rw [Equiv.swap_apply_def]
      split_ifs <;> assumption
  unfold held
  rw [← Multiset.map_map, hswap]

theorem held_update_last (v : α) :
    held (Function.update f n v) (n + 1) = v ::ₘ held f n := by
  rw [held_succ, Function.update_self]
  congr 1
  apply held_congr
  intro k hk
  exact Function.update_of_ne hk.ne v f

/-- Putting the last element at the root takes the root out. -/
theorem held_update_root :
    f 0 ::ₘ held (Function.update f 0 (f n)) n = held f (n + 1) := by
  have hmoved : held (Function.update f 0 (f n)) n =
      held (f ∘ Equiv.swap 0 n) n := by
    apply held_congr
    intro k hk
    by_cases hk0 : k = 0
    · subst hk0
      simp
    · rw [Function.update_of_ne hk0]
      simp only [Function.comp, Equiv.swap_apply_of_ne_of_ne hk0 hk.ne]
  have hlast : (f ∘ Equiv.swap 0 n) n = f 0 := by simp
  calc
    f 0 ::ₘ held (Function.update f 0 (f n)) n =
        (f ∘ Equiv.swap 0 n) n ::ₘ held (f ∘ Equiv.swap 0 n) n := by
      rw [hmoved, hlast]
    _ = held (f ∘ Equiv.swap 0 n) (n + 1) := (held_succ _ n).symm
    _ = held f (n + 1) :=
      held_exchange (Nat.zero_lt_succ n) (Nat.lt_succ_self n)

end HeapOrder
