import MiscCode.CallFrameInfo.InForce

/-!
# Writing rules and reading them back

`Serialize` writes the rules in force as a rule set.  Read by the parser, the
text yields the rules that were written, so the rules that the records of a
symbol file build up survive a round trip.
-/

namespace MiscCode
namespace CallFrameInfo

open CString Words

variable {σ : Type}

/-! ## The text of rules -/

/-- The rules that `Serialize` writes, in its order. -/
def FrameInfo.written (info : FrameInfo) : List (Text × Text) :=
  (if info.cfaRule ≠ [] then [(cfaName, info.cfaRule)] else []) ++
    (if info.raRule ≠ [] then [(raName, info.raRule)] else []) ++
    info.registerRules

theorem FrameInfo.serialize_eq (info : FrameInfo) :
    info.serialize =
      info.written.foldl (fun stream rule => writeRule stream rule.1 rule.2)
        [] := by
  by_cases hcfa : info.cfaRule = []
  · by_cases hra : info.raRule = []
    · simp [FrameInfo.serialize, FrameInfo.written, hcfa, hra]
    · simp [FrameInfo.serialize, FrameInfo.written, hcfa, hra]
  · by_cases hra : info.raRule = []
    · simp [FrameInfo.serialize, FrameInfo.written, hcfa, hra]
    · simp [FrameInfo.serialize, FrameInfo.written, hcfa, hra]

/-- The name and the expression of a rule. -/
def Rule.pair (rule : Rule) : Text × Text := (rule.name, rule.expression)

theorem Rule.isToken_of_mem_tokens {rule : Rule} {token : Text}
    (h : token ∈ rule.tokens) : IsToken token := by
  rcases List.mem_cons.mp h with rfl | h
  · have hname := rule.name_isToken
    refine ⟨⟨by simp, ?_⟩, ?_⟩
    · intro c hc
      rcases List.mem_append.mp hc with hc | hc
      · exact hname.isWord.unbroken c hc
      · obtain rfl := List.mem_singleton.mp hc
        decide
    · intro hnul
      rcases List.mem_append.mp hnul with hnul | hnul
      · exact hname.nul_notMem hnul
      · revert hnul
        decide
  · exact (rule.isComponent token h).isToken

/-- A rule is written as its tokens with single blanks between them. -/
theorem writeRule_rule (stream : Text) (rule : Rule) :
    writeRule stream rule.name rule.expression =
      if stream = [] then expressionOf rule.tokens
      else stream ++ ' ' :: expressionOf rule.tokens := by
  have htokens : expressionOf rule.tokens =
      rule.name ++ [':', ' '] ++ rule.expression := by
    simp [expressionOf, Rule.tokens, Rule.expression,
      List.intercalate_cons_of_ne_nil rule.components_ne_nil]
  by_cases hstream : stream = []
  · simp [writeRule, hstream, htokens]
  · simp [writeRule, hstream, htokens]

theorem write_rules (rules : List Rule) :
    (rules.map Rule.pair).foldl
        (fun stream rule => writeRule stream rule.1 rule.2) [] =
      expressionOf (rules.flatMap Rule.tokens) := by
  induction rules using List.reverseRecOn with
  | nil => rfl
  | append_singleton rules rule ih =>
      rw [List.map_append, List.foldl_append, ih, List.flatMap_append]
      simp only [List.map_cons, List.map_nil, List.foldl_cons, List.foldl_nil,
        Rule.pair, List.flatMap_cons, List.flatMap_nil, List.append_nil,
        writeRule_rule]
      by_cases hrules : rules = []
      · simp [hrules, expressionOf]
      · have htokens : rules.flatMap Rule.tokens ≠ [] :=
          mt flatMap_tokens_eq_nil_iff.mp hrules
        have hstream : expressionOf (rules.flatMap Rule.tokens) ≠ [] := by
          rw [ne_eq, expressionOf_eq_nil_iff]
          · exact htokens
          · intro w hw
            obtain ⟨rule, -, hw⟩ := List.mem_flatMap.mp hw
            exact (Rule.isToken_of_mem_tokens hw).isWord.ne_nil
        rw [if_neg hstream, expressionOf, expressionOf, expressionOf,
          intercalate_append _ htokens rule.tokens_ne_nil, List.append_assoc,
          List.singleton_append]

theorem ruleTokens_expressionOf {tokens : List Text}
    (htokens : ∀ token ∈ tokens, IsToken token) :
    ruleTokens (expressionOf tokens) = tokens := by
  have hnul : nul ∉ expressionOf tokens := by
    intro hnul
    rcases mem_of_mem_intercalate hnul with h | ⟨token, htoken, h⟩
    · revert h
      decide
    · exact (htokens token htoken).nul_notMem h
  rw [ruleTokens, text_eq_self_iff.mpr hnul]
  exact words_intercalate (by decide) fun token h => (htokens token h).isWord

theorem parse_written (handler : Handler σ) {rules : List Rule}
    (hrules : rules ≠ []) (s : σ) :
    parse handler (expressionOf (rules.flatMap Rule.tokens)) s =
      (true, rules.foldl handler.read s) := by
  refine (parse_eq_true_iff handler _ s _).mpr ⟨rules, hrules, ?_, rfl⟩
  apply ruleTokens_expressionOf
  intro token htoken
  obtain ⟨rule, -, htoken⟩ := List.mem_flatMap.mp htoken
  exact Rule.isToken_of_mem_tokens htoken

/-! ## Rules that can be read back -/

/-- Every rule in force is one that a rule set can hold, and the registers of
the map are not those that the parser treats apart. -/
structure FrameInfo.Readable (info : FrameInfo) : Prop where
  isRule : ∀ name expression, info.rule? name = some expression →
    ∃ rule : Rule, rule.pair = (name, expression)
  cfa : info.registerRule? cfaName = none
  ra : info.registerRule? raName = none

theorem readable_fresh : FrameInfo.fresh.Readable where
  isRule := by
    intro name expression h
    rw [FrameInfo.rule?_fresh] at h
    cases h
  cfa := rfl
  ra := rfl

theorem lookup_optional (condition : Prop) [Decidable condition]
    (key value name : Text) :
    (if condition then [(key, value)] else []).lookup name =
      if condition ∧ name = key then some value else none := by
  by_cases h : condition
  · simp [h]
  · simp [h]

/-- The rules written are the rules in force. -/
theorem FrameInfo.Readable.lookup_written {info : FrameInfo}
    (hinfo : info.Readable) (name : Text) :
    info.written.lookup name = info.rule? name := by
  have hregister : info.registerRules.lookup name = info.registerRule? name :=
    rfl
  rw [FrameInfo.written, List.lookup_append, List.lookup_append,
    lookup_optional, lookup_optional, hregister, FrameInfo.rule?]
  by_cases hcfa : name = cfaName
  · subst hcfa
    by_cases hnil : info.cfaRule = []
    · simp [hnil, hinfo.cfa, cfaName_ne_raName]
    · simp [hnil]
  · rw [if_neg (fun h => hcfa h.2), if_neg hcfa]
    by_cases hra : name = raName
    · subst hra
      by_cases hnil : info.raRule = []
      · simp [hnil, hinfo.ra]
      · simp [hnil]
    · rw [if_neg (fun h => hra h.2), if_neg hra]
      rfl

theorem FrameInfo.Readable.distinct_written {info : FrameInfo}
    (hinfo : info.Readable) : (info.written.map Prod.fst).Nodup := by
  have hcfa := lookup_eq_none_iff_notMem.mp hinfo.cfa
  have hra := lookup_eq_none_iff_notMem.mp hinfo.ra
  have hne := cfaName_ne_raName
  by_cases hcfaRule : info.cfaRule = []
  · by_cases hraRule : info.raRule = []
    · simpa [FrameInfo.written, hcfaRule, hraRule] using info.distinct
    · simpa [FrameInfo.written, hcfaRule, hraRule, info.distinct] using hra
  · by_cases hraRule : info.raRule = []
    · simpa [FrameInfo.written, hcfaRule, hraRule, info.distinct] using hcfa
    · simp only [List.mem_map, not_exists, not_and] at hcfa hra
      simp [FrameInfo.written, hcfaRule, hraRule, info.distinct, hne]
      exact ⟨fun x h => hcfa _ h rfl, fun x h => hra _ h rfl⟩

theorem exists_rules {pairs : List (Text × Text)}
    (h : ∀ pair ∈ pairs, ∃ rule : Rule, rule.pair = pair) :
    ∃ rules : List Rule, rules.map Rule.pair = pairs := by
  induction pairs with
  | nil => exact ⟨[], rfl⟩
  | cons pair pairs ih =>
      obtain ⟨⟨rule, rfl⟩, hrest⟩ := List.forall_mem_cons.mp h
      obtain ⟨rules, rfl⟩ := ih hrest
      exact ⟨rule :: rules, rfl⟩

theorem FrameInfo.Readable.exists_rules {info : FrameInfo}
    (hinfo : info.Readable) :
    ∃ rules : List Rule, rules.map Rule.pair = info.written := by
  apply CallFrameInfo.exists_rules
  rintro ⟨name, expression⟩ hmem
  apply hinfo.isRule
  rw [← hinfo.lookup_written]
  exact lookup_of_mem hinfo.distinct_written hmem

/-- What `Serialize` writes is accepted, and the handler is told the rules in
the order they were written in. -/
theorem FrameInfo.Readable.parse_text {info : FrameInfo}
    (hinfo : info.Readable) (hne : info.written ≠ []) (handler : Handler σ)
    (s : σ) :
    parse handler info.serialize s =
      (true, info.written.foldl
        (fun s rule => handler.rule rule.1 rule.2 s) s) := by
  obtain ⟨rules, hrules⟩ := hinfo.exists_rules
  have hsome : rules ≠ [] := by
    rintro rfl
    exact hne hrules.symm
  rw [info.serialize_eq, ← hrules, write_rules, parse_written handler hsome,
    List.foldl_map]
  rfl

/-! ## The round trip -/

section Lawful

variable {setters : Setters} (hsetters : setters.Lawful)
include hsetters

theorem registerRule?_read {info : FrameInfo} (rule : Rule) {name : Text}
    (hname : name = cfaName ∨ name = raName)
    (h : info.registerRule? name = none) :
    (setters.parseHandler.read info rule).registerRule? name = none := by
  by_cases hcfa : rule.name = cfaName
  · have hread : setters.parseHandler.read info rule =
        { info with cfaRule := rule.expression } :=
      (if_pos hcfa).trans (hsetters.setCFARule _ info)
    rw [hread]
    exact h
  · by_cases hra : rule.name = raName
    · have hread : setters.parseHandler.read info rule =
          { info with raRule := rule.expression } :=
        (if_neg hcfa).trans ((if_pos hra).trans (hsetters.setRARule _ info))
      rw [hread]
      exact h
    · have hread : setters.parseHandler.read info rule =
          setters.setRegisterRule rule.name rule.expression info :=
        (if_neg hcfa).trans (if_neg hra)
      have hother : name ≠ rule.name := by
        rintro rfl
        exact hname.elim hcfa hra
      rw [hread, hsetters.setRegisterRule, if_neg hother, h]

theorem readable_read (info : FrameInfo) (rule : Rule) (hinfo : info.Readable) :
    (setters.parseHandler.read info rule).Readable where
  isRule := by
    intro name expression h
    rw [rule?_read hsetters] at h
    by_cases hname : name = rule.name
    · rw [if_pos hname] at h
      exact ⟨rule, by rw [Rule.pair, hname, Option.some.inj h]⟩
    · rw [if_neg hname] at h
      exact hinfo.isRule name expression h
  cfa := registerRule?_read hsetters rule (.inl rfl) hinfo.cfa
  ra := registerRule?_read hsetters rule (.inr rfl) hinfo.ra

omit hsetters in
/-- What some rule sets make of a new `CFIFrameInfo`, accepted or not. -/
def build (setters : Setters) (ruleSets : List Text) : FrameInfo :=
  ruleSets.foldl (fun info ruleSet => (parseCFIRuleSet setters ruleSet info).2)
    .fresh

theorem readable_build (ruleSets : List Text) :
    (build setters ruleSets).Readable := by
  induction ruleSets using List.reverseRecOn with
  | nil => exact readable_fresh
  | append_singleton ruleSets ruleSet ih =>
      rw [build, List.foldl_append, List.foldl_cons, List.foldl_nil]
      exact parse_keeps (readable_read hsetters) ruleSet ih

/-- Whatever rule sets were read, unless no rule is in force their rules are
written as a rule set that is accepted and puts the same rules in force. -/
theorem parse_serialize (ruleSets : List Text)
    (hne : (build setters ruleSets).written ≠ []) :
    ∃ info, parseCFIRuleSet setters (build setters ruleSets).serialize .fresh =
        (true, info) ∧
      ∀ name, info.rule? name = (build setters ruleSets).rule? name := by
  have hinfo := readable_build hsetters ruleSets
  refine ⟨_, hinfo.parse_text hne _ _, fun name => ?_⟩
  have hexpressions : ∀ rule ∈ (build setters ruleSets).written,
      rule.2 ≠ [] := by
    obtain ⟨rules, hrules⟩ := hinfo.exists_rules
    rw [← hrules]
    intro pair hpair
    obtain ⟨rule, -, rfl⟩ := List.mem_map.mp hpair
    exact rule.expression_ne_nil
  rw [rule?_foldl_rule hsetters hexpressions,
    lookup_reverse hinfo.distinct_written, hinfo.lookup_written,
    FrameInfo.rule?_fresh, Option.or_none]

end Lawful

/-- A rule set with an unusual gap, and a later one that replaces its rule for
the return address. -/
def sampleRuleSets : List Text :=
  [".cfa: $esp  4 + .ra: .cfa 4 - ^ $ebx: 1".toList, ".ra: $lr".toList]

theorem parse_serialize_sample :
    ∃ info, parseCFIRuleSet listSetters
        (build listSetters sampleRuleSets).serialize .fresh = (true, info) ∧
      ∀ name, info.rule? name =
        (build listSetters sampleRuleSets).rule? name :=
  parse_serialize lawful_listSetters sampleRuleSets (by decide +kernel)

example : (build listSetters sampleRuleSets).serialize =
    ".cfa: $esp 4 + .ra: $lr $ebx: 1".toList := by
  decide +kernel

end CallFrameInfo
end MiscCode
