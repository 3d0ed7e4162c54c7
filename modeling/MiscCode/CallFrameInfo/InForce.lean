import MiscCode.CallFrameInfo.Grammar
import Mathlib.Data.List.Nodup

/-!
# The rules in force

A `CFIFrameInfo` has at most one rule for a name, and reading a rule replaces
the one that was in force for its name.  After a sequence of rules the last one
for a name is in force.
-/

namespace MiscCode
namespace CallFrameInfo

/-- The rule in force for a name; an empty expression is no rule. -/
def FrameInfo.rule? (info : FrameInfo) (name : Text) : Option Text :=
  if name = cfaName then if info.cfaRule = [] then none else some info.cfaRule
  else if name = raName then
    if info.raRule = [] then none else some info.raRule
  else info.registerRule? name

theorem cfaName_ne_raName : cfaName ≠ raName := by decide

theorem FrameInfo.rule?_cfaName (info : FrameInfo) :
    info.rule? cfaName =
      if info.cfaRule = [] then none else some info.cfaRule :=
  if_pos rfl

theorem FrameInfo.rule?_raName (info : FrameInfo) :
    info.rule? raName = if info.raRule = [] then none else some info.raRule := by
  rw [FrameInfo.rule?, if_neg cfaName_ne_raName.symm, if_pos rfl]

theorem FrameInfo.rule?_register (info : FrameInfo) {name : Text}
    (hcfa : name ≠ cfaName) (hra : name ≠ raName) :
    info.rule? name = info.registerRule? name := by
  rw [FrameInfo.rule?, if_neg hcfa, if_neg hra]

theorem FrameInfo.rule?_fresh (name : Text) :
    FrameInfo.fresh.rule? name = none := by
  simp [FrameInfo.rule?, FrameInfo.fresh, FrameInfo.registerRule?]

theorem lookup_eq_none_iff_notMem {rules : List (Text × Text)} {name : Text} :
    rules.lookup name = none ↔ name ∉ rules.map Prod.fst := by
  rw [List.lookup_eq_none_iff]
  constructor
  · intro h hmem
    obtain ⟨rule, hrule, rfl⟩ := List.mem_map.mp hmem
    have hne := h rule hrule
    simp at hne
  · intro h rule hrule
    have hne : name ≠ rule.1 := by
      rintro rfl
      exact h (List.mem_map_of_mem hrule)
    simpa using hne

theorem lookup_of_mem {rules : List (Text × Text)}
    (hdistinct : (rules.map Prod.fst).Nodup) {name expression : Text}
    (h : (name, expression) ∈ rules) : rules.lookup name = some expression := by
  induction rules with
  | nil => cases h
  | cons rule rules ih =>
      obtain ⟨key, value⟩ := rule
      rw [List.map_cons, List.nodup_cons] at hdistinct
      rcases List.mem_cons.mp h with heq | hmem
      · cases heq
        exact List.lookup_cons_self
      · have hne : name ≠ key := by
          rintro rfl
          exact hdistinct.1 (List.mem_map.mpr ⟨_, hmem, rfl⟩)
        have hkey : (name == key) = false := by simpa using hne
        rw [List.lookup_cons, hkey]
        exact ih hdistinct.2 hmem

theorem mem_of_lookup {rules : List (Text × Text)} {name expression : Text}
    (h : rules.lookup name = some expression) : (name, expression) ∈ rules := by
  obtain ⟨front, back, rfl, -⟩ := List.lookup_eq_some_iff.mp h
  exact List.mem_append_right _ List.mem_cons_self

/-- With one rule for a name, the last one is the first one. -/
theorem lookup_reverse {rules : List (Text × Text)}
    (hdistinct : (rules.map Prod.fst).Nodup) (name : Text) :
    rules.reverse.lookup name = rules.lookup name := by
  cases h : rules.lookup name with
  | none =>
      rw [lookup_eq_none_iff_notMem] at h ⊢
      rwa [List.map_reverse, List.mem_reverse]
  | some expression =>
      refine lookup_of_mem ?_ (List.mem_reverse.mpr (mem_of_lookup h))
      rwa [List.map_reverse, List.nodup_reverse]

theorem lookup_filter {κ α : Type} [BEq κ] [LawfulBEq κ] (p : κ → Bool) (key : κ)
    (entries : List (κ × α)) :
    (entries.filter fun entry => p entry.1).lookup key =
      if p key then entries.lookup key else none := by
  induction entries with
  | nil => simp
  | cons entry entries ih =>
      obtain ⟨other, value⟩ := entry
      by_cases hkey : key = other
      · subst hkey
        by_cases hp : p key
        · simp [hp]
        · simp [hp, ih]
      · have hbeq : (key == other) = false := by simpa using hkey
        by_cases hp : p other
        · simp [hp, List.lookup_cons, hbeq, ih]
        · simp [hp, List.lookup_cons, hbeq, ih]

/-! ## Setters that are lawful -/

/-- The register rules with one of them set. -/
def FrameInfo.setRegisterRule (name expression : Text) (info : FrameInfo) :
    FrameInfo :=
  { info with
    registerRules := (info.registerRules.filter fun rule => rule.1 ≠ name) ++
      [(name, expression)]
    distinct := by
      rw [List.map_append, List.nodup_append]
      refine ⟨info.distinct.sublist (List.filter_sublist.map _),
        List.nodup_singleton _, ?_⟩
      intro key hkey other hother
      obtain ⟨rule, hrule, rfl⟩ := List.mem_map.mp hkey
      obtain rfl := List.mem_singleton.mp hother
      simpa using (List.mem_filter.mp hrule).2 }

/-- Setters that keep the register rules in the order they were set in. -/
def listSetters : Setters where
  setCFARule := fun expression info => { info with cfaRule := expression }
  setRARule := fun expression info => { info with raRule := expression }
  setRegisterRule := FrameInfo.setRegisterRule

theorem lawful_listSetters : listSetters.Lawful where
  setCFARule := fun _ _ => rfl
  setRARule := fun _ _ => rfl
  setRegisterRule_cfaRule := fun _ _ _ => rfl
  setRegisterRule_raRule := fun _ _ _ => rfl
  setRegisterRule := by
    intro name expression info other
    have hset : (listSetters.setRegisterRule name expression info).registerRule?
        other = ((info.registerRules.filter fun rule => rule.1 ≠ name) ++
          [(name, expression)]).lookup other := rfl
    rw [hset, List.lookup_append]
    by_cases h : other = name
    · have hnone : (info.registerRules.filter fun rule => rule.1 ≠ name).lookup
          other = none := by
        rw [List.lookup_eq_none_iff]
        intro rule hrule
        have hne : rule.1 ≠ name := by
          simpa using (List.mem_filter.mp hrule).2
        simpa [h] using hne.symm
      rw [hnone, h, if_pos rfl]
      simp
    · have hfilter : (info.registerRules.filter fun rule => rule.1 ≠ name).lookup
          other = info.registerRules.lookup other :=
        (lookup_filter (fun key => decide (key ≠ name)) other _).trans
          (if_pos (decide_eq_true h))
      rw [hfilter, if_neg h, FrameInfo.registerRule?]
      simp [h]

/-! ## Reading rules -/

section Lawful

variable {setters : Setters} (hsetters : setters.Lawful)
include hsetters

/-- A rule that is read replaces the one for its name. -/
theorem rule?_rule (name : Text) {expression : Text} (hne : expression ≠ [])
    (info : FrameInfo) (other : Text) :
    (setters.parseHandler.rule name expression info).rule? other =
      if other = name then some expression else info.rule? other := by
  by_cases hcfa : name = cfaName
  · subst hcfa
    have hrule : setters.parseHandler.rule cfaName expression info =
        { info with cfaRule := expression } :=
      (if_pos rfl).trans (hsetters.setCFARule expression info)
    rw [hrule]
    by_cases hother : other = cfaName
    · simp [FrameInfo.rule?, hother, hne]
    · simp [FrameInfo.rule?, hother, FrameInfo.registerRule?]
  · by_cases hra : name = raName
    · subst hra
      have hrule : setters.parseHandler.rule raName expression info =
          { info with raRule := expression } :=
        (if_neg hcfa).trans
          ((if_pos rfl).trans (hsetters.setRARule expression info))
      rw [hrule]
      by_cases hother : other = raName
      · simp [FrameInfo.rule?, hother, hne, hcfa]
      · simp [FrameInfo.rule?, hother, FrameInfo.registerRule?]
    · have hrule : setters.parseHandler.rule name expression info =
          setters.setRegisterRule name expression info :=
        (if_neg hcfa).trans (if_neg hra)
      rw [hrule]
      simp only [FrameInfo.rule?, hsetters.setRegisterRule_cfaRule,
        hsetters.setRegisterRule_raRule, hsetters.setRegisterRule]
      by_cases hother : other = name
      · subst hother
        simp [hcfa, hra]
      · simp [hother]

theorem rule?_read (info : FrameInfo) (rule : Rule) (name : Text) :
    (setters.parseHandler.read info rule).rule? name =
      if name = rule.name then some rule.expression else info.rule? name :=
  rule?_rule hsetters rule.name rule.expression_ne_nil info name

/-- After some rules, given by names and expressions, the last one for a name is
in force, or the one that was in force before them. -/
theorem rule?_foldl_rule {rules : List (Text × Text)}
    (hne : ∀ rule ∈ rules, rule.2 ≠ []) (info : FrameInfo) (name : Text) :
    (rules.foldl (fun info rule => setters.parseHandler.rule rule.1 rule.2 info)
        info).rule? name = (rules.reverse.lookup name).or (info.rule? name) := by
  induction rules using List.reverseRecOn with
  | nil => rfl
  | append_singleton rules rule ih =>
      obtain ⟨key, expression⟩ := rule
      obtain ⟨hrules, hrule⟩ := List.forall_mem_append.mp hne
      have hexpression : expression ≠ [] := hrule _ (List.mem_singleton_self _)
      rw [List.foldl_append, List.foldl_cons, List.foldl_nil,
        rule?_rule hsetters key hexpression, ih hrules,
        List.reverse_append, List.reverse_singleton, List.singleton_append]
      by_cases h : name = key
      · rw [if_pos h, h, List.lookup_cons_self]
        rfl
      · have hkey : (name == key) = false := by simpa using h
        rw [if_neg h, List.lookup_cons, hkey]

end Lawful

end CallFrameInfo
end MiscCode
