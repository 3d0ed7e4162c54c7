import MiscCode.CallFrameInfo.Serialize

/-!
# From records to the registers of the caller

`FindCFIFrameInfo` puts the rules of the record that covers an address in force
and then those of the records behind it, up to the address.  `FindCallerRegs`
evaluates the rules in force.
-/

namespace MiscCode
namespace CallFrameInfo

/-! ## `FindCFIFrameInfo` -/

/-- The map `cfi_delta_rules_`, in the order of its addresses. -/
structure DeltaRules where
  entries : List (UInt64 × Text)
  sorted : (entries.map Prod.fst).Pairwise (· < ·)

/-- What `RetrieveRange` answers about an initial rule set. -/
structure InitialRules where
  rules : Text
  base : UInt64
  size : UInt64
  deriving DecidableEq, Repr

/-- The records about call frames: the answers of `cfi_initial_rules_`, a range
map whose class is not in the repository, and the later rule sets. -/
structure CFIRecords where
  retrieveRange : UInt64 → Option InitialRules
  deltaRules : DeltaRules

/-- The loop over the delta rules; what the parser answers is not looked at. -/
def applyDeltas (setters : Setters) (address : UInt64) :
    List (UInt64 × Text) → FrameInfo → FrameInfo
  | [], rules => rules
  | delta :: deltas, rules =>
      if delta.1 ≤ address then
        applyDeltas setters address deltas
          (parseCFIRuleSet setters delta.2 rules).2
      else rules

/-- `FindCFIFrameInfo` at an address of the module. -/
def findCFIFrameInfo (setters : Setters) (records : CFIRecords)
    (address : UInt64) : Option FrameInfo := do
  let initial ← records.retrieveRange address
  let (accepted, rules) := parseCFIRuleSet setters initial.rules .fresh
  if accepted then
    -- the search starts at the lower bound of the base
    some (applyDeltas setters address
      (records.deltaRules.entries.dropWhile fun delta => delta.1 < initial.base)
      rules)
  else none

/-- The later rule sets from one address to another. -/
def DeltaRules.between (deltas : DeltaRules) (base address : UInt64) :
    List (UInt64 × Text) :=
  deltas.entries.filter fun delta => base ≤ delta.1 ∧ delta.1 ≤ address

/-! ## The records that count -/

theorem takeWhile_eq_filter {α : Type} {p : α → Bool} {xs : List α}
    (h : xs.Pairwise fun x y => p y → p x) : xs.takeWhile p = xs.filter p := by
  induction xs with
  | nil => rfl
  | cons x xs ih =>
      obtain ⟨hx, hxs⟩ := List.pairwise_cons.mp h
      by_cases hp : p x
      · rw [List.takeWhile_cons_of_pos hp, List.filter_cons_of_pos hp, ih hxs]
      · have hnone : xs.filter p = [] := by
          rw [List.filter_eq_nil_iff]
          exact fun y hy hpy => hp (hx y hy hpy)
        rw [List.takeWhile_cons_of_neg hp, List.filter_cons_of_neg hp, hnone]

theorem dropWhile_eq_filter_not {α : Type} {p : α → Bool} {xs : List α}
    (h : xs.Pairwise fun x y => p y → p x) :
    xs.dropWhile p = xs.filter fun x => !p x := by
  induction xs with
  | nil => rfl
  | cons x xs ih =>
      obtain ⟨hx, hxs⟩ := List.pairwise_cons.mp h
      by_cases hp : p x
      · rw [List.dropWhile_cons_of_pos hp, ih hxs]
        simp [hp]
      · have hall : ∀ y ∈ x :: xs, (!p y) = true := by
          intro y hy
          rcases List.mem_cons.mp hy with rfl | hy
          · simpa using hp
          · simpa using fun hpy => hp (hx y hy hpy)
        rw [List.dropWhile_cons_of_neg hp, List.filter_eq_self.mpr hall]

theorem applyDeltas_eq (setters : Setters) (address : UInt64)
    (deltas : List (UInt64 × Text)) (rules : FrameInfo) :
    applyDeltas setters address deltas rules =
      (deltas.takeWhile fun delta => delta.1 ≤ address).foldl
        (fun rules delta => (parseCFIRuleSet setters delta.2 rules).2) rules := by
  induction deltas generalizing rules with
  | nil => rfl
  | cons delta deltas ih =>
      by_cases h : delta.1 ≤ address
      · rw [applyDeltas, if_pos h, ih, List.takeWhile_cons_of_pos (by simpa)]
        rfl
      · rw [applyDeltas, if_neg h,
          List.takeWhile_cons_of_neg (by simpa using h)]
        rfl

/-- The loop runs over the entries from the base to the address. -/
theorem DeltaRules.takeWhile_dropWhile (deltas : DeltaRules)
    (base address : UInt64) :
    (deltas.entries.dropWhile fun delta => delta.1 < base).takeWhile
        (fun delta => delta.1 ≤ address) = deltas.between base address := by
  have hsorted := List.pairwise_map.mp deltas.sorted
  have hbase : deltas.entries.Pairwise fun x y =>
      decide (y.1 < base) = true → decide (x.1 < base) = true := by
    refine hsorted.imp fun {x y} hlt hy => ?_
    simp only [decide_eq_true_eq, UInt64.lt_iff_toNat_lt] at *
    omega
  have haddress : deltas.entries.Pairwise fun x y =>
      decide (y.1 ≤ address) = true → decide (x.1 ≤ address) = true := by
    refine hsorted.imp fun {x y} hlt hy => ?_
    simp only [decide_eq_true_eq, UInt64.lt_iff_toNat_lt,
      UInt64.le_iff_toNat_le] at *
    omega
  rw [dropWhile_eq_filter_not hbase, takeWhile_eq_filter (haddress.filter _),
    List.filter_filter]
  apply List.filter_congr
  intro delta _
  have hnot : (!decide (delta.1 < base)) = decide (base ≤ delta.1) := by
    rw [← decide_not, decide_eq_decide, UInt64.not_lt]
  rw [hnot, Bool.and_comm, Bool.decide_and]

/-- An address has a `CFIFrameInfo` when the rule set that covers it is
accepted, and then it is built from that one and the later ones up to the
address. -/
theorem findCFIFrameInfo_eq_some_iff (setters : Setters) (records : CFIRecords)
    (address : UInt64) (rules : FrameInfo) :
    findCFIFrameInfo setters records address = some rules ↔
      ∃ initial, records.retrieveRange address = some initial ∧
        (parseCFIRuleSet setters initial.rules .fresh).1 = true ∧
        rules = build setters (initial.rules ::
          (records.deltaRules.between initial.base address).map Prod.snd) := by
  cases hrange : records.retrieveRange address with
  | none => simp [findCFIFrameInfo, hrange]
  | some initial =>
      have hfind : findCFIFrameInfo setters records address =
          if (parseCFIRuleSet setters initial.rules .fresh).1 then
            some (build setters (initial.rules ::
              (records.deltaRules.between initial.base address).map Prod.snd))
          else none := by
        rw [findCFIFrameInfo, hrange]
        simp only [Option.bind_eq_bind, Option.bind_some, applyDeltas_eq,
          DeltaRules.takeWhile_dropWhile, build, List.foldl_cons,
          List.foldl_map]
      rw [hfind]
      constructor
      · intro h
        split at h
        · rename_i haccepted
          exact ⟨initial, rfl, haccepted, (Option.some.inj h).symm⟩
        · cases h
      · rintro ⟨initial', hinitial, haccepted, rfl⟩
        obtain rfl := Option.some.inj hinitial
        rw [if_pos haccepted]

/-- A rule set that is a sequence of rules, at least one. -/
def WellFormed (ruleSet : Text) : Prop :=
  ∃ rules : List Rule, rules ≠ [] ∧
    ruleTokens ruleSet = rules.flatMap Rule.tokens

theorem parseCFIRuleSet_iff (setters : Setters) (ruleSet : Text)
    (info : FrameInfo) :
    (parseCFIRuleSet setters ruleSet info).1 = true ↔ WellFormed ruleSet := by
  constructor
  · intro h
    obtain ⟨rules, hne, htokens, -⟩ := (parse_eq_true_iff setters.parseHandler
      ruleSet info _).mp (Prod.ext h rfl)
    exact ⟨rules, hne, htokens⟩
  · rintro ⟨rules, hne, htokens⟩
    rw [parseCFIRuleSet, (parse_eq_true_iff setters.parseHandler ruleSet info
      _).mpr ⟨rules, hne, htokens, rfl⟩]

/-- Of all rules that are reported in some rule sets, the last one for a name is
in force. -/
theorem rule?_build {setters : Setters} (hsetters : setters.Lawful)
    (ruleSets : List Text) (name : Text) :
    (build setters ruleSets).rule? name =
      (ruleSets.flatMap reported).reverse.lookup name := by
  have hfold : ∀ info, ruleSets.foldl (fun info ruleSet =>
      (parseCFIRuleSet setters ruleSet info).2) info =
        (ruleSets.flatMap reported).foldl
          (fun info rule => setters.parseHandler.rule rule.1 rule.2 info) info := by
    induction ruleSets with
    | nil => exact fun _ => rfl
    | cons ruleSet ruleSets ih =>
        intro info
        rw [List.foldl_cons, ih, List.flatMap_cons, List.foldl_append,
          parseCFIRuleSet, parse_eq_reported]
  have hne : ∀ rule ∈ ruleSets.flatMap reported, rule.2 ≠ [] := by
    intro rule hrule
    obtain ⟨ruleSet, -, hreported⟩ := List.mem_flatMap.mp hrule
    exact expression_ne_nil_of_reported rule hreported
  rw [build, hfold, rule?_foldl_rule hsetters hne, FrameInfo.rule?_fresh,
    Option.or_none]

theorem isSome_findCFIFrameInfo (setters : Setters) (records : CFIRecords)
    (address : UInt64) :
    (findCFIFrameInfo setters records address).isSome = true ↔
      ∃ initial, records.retrieveRange address = some initial ∧
        WellFormed initial.rules := by
  rw [Option.isSome_iff_exists]
  constructor
  · rintro ⟨info, h⟩
    obtain ⟨initial, hinitial, haccepted, -⟩ :=
      (findCFIFrameInfo_eq_some_iff setters records address info).mp h
    exact ⟨initial, hinitial, (parseCFIRuleSet_iff setters _ _).mp haccepted⟩
  · rintro ⟨initial, hinitial, hwellFormed⟩
    exact ⟨_, (findCFIFrameInfo_eq_some_iff setters records address _).mpr
      ⟨initial, hinitial, (parseCFIRuleSet_iff setters _ _).mpr hwellFormed,
        rfl⟩⟩

theorem rule?_of_findCFIFrameInfo {setters : Setters}
    (hsetters : setters.Lawful) {records : CFIRecords} {address : UInt64}
    {info : FrameInfo}
    (h : findCFIFrameInfo setters records address = some info) :
    ∃ initial, records.retrieveRange address = some initial ∧
      ∀ name, info.rule? name = ((reported initial.rules ++
        (records.deltaRules.between initial.base address).flatMap
          fun delta => reported delta.2).reverse.lookup name) := by
  obtain ⟨initial, hinitial, -, rfl⟩ :=
    (findCFIFrameInfo_eq_some_iff setters records address info).mp h
  refine ⟨initial, hinitial, fun name => ?_⟩
  rw [rule?_build hsetters, List.flatMap_cons, List.flatMap_map]

section Sample

/-- Records with a rule set from 16 to 31 and later ones, of which the one at 20
is not well formed. -/
def sampleRecords : CFIRecords where
  retrieveRange := fun address =>
    if 16 ≤ address ∧ address < 32 then
      some ⟨".cfa: $esp .ra: $eip".toList, 16, 16⟩
    else none
  deltaRules :=
    { entries := [(8, ".cfa: $eax".toList), (20, ".cfa: $ebp .ra: :".toList),
        (28, ".ra: $eax".toList)]
      sorted := by decide }

/-- The rule in front of the mistake counts. -/
example : (findCFIFrameInfo listSetters sampleRecords 24).map (fun info =>
    (info.rule? cfaName, info.rule? raName)) =
      some (some "$ebp".toList, some "$eip".toList) := by
  decide +kernel

end Sample

theorem readable_findCFIFrameInfo {setters : Setters}
    (hsetters : setters.Lawful) {records : CFIRecords} {address : UInt64}
    {info : FrameInfo}
    (h : findCFIFrameInfo setters records address = some info) :
    info.Readable := by
  obtain ⟨initial, -, -, rfl⟩ :=
    (findCFIFrameInfo_eq_some_iff setters records address info).mp h
  exact readable_build hsetters _

/-! ## `FindCallerRegs` -/

section CallerRegs

variable {V : Type}
  (evaluateForValue : Text → RegisterValues V → Option V)

theorem recoverRegisters_eq_some_iff (working : RegisterValues V)
    {rules : List (Text × Text)} (hdistinct : (rules.map Prod.fst).Nodup)
    (start callerRegisters : RegisterValues V) :
    recoverRegisters evaluateForValue working rules start =
        some callerRegisters ↔
      (∀ rule ∈ rules, (evaluateForValue rule.2 working).isSome) ∧
        ∀ name, callerRegisters name =
          (((rules.lookup name).bind fun expression =>
            evaluateForValue expression working).or (start name)) := by
  induction rules generalizing start with
  | nil =>
      constructor
      · intro h
        obtain rfl := Option.some.inj h
        simp
      · rintro ⟨-, h⟩
        exact congrArg some (funext fun name => (h name).symm)
  | cons rule rules ih =>
      obtain ⟨key, expression⟩ := rule
      rw [List.map_cons, List.nodup_cons] at hdistinct
      have hkey := lookup_eq_none_iff_notMem.mpr hdistinct.1
      cases hvalue : evaluateForValue expression working with
      | none => simp [recoverRegisters, hvalue]
      | some value =>
          simp only [recoverRegisters, hvalue, Option.bind_eq_bind,
            Option.bind_some, ih hdistinct.2, List.forall_mem_cons,
            Option.isSome_some, true_and]
          refine and_congr_right fun _ => forall_congr' fun name => ?_
          by_cases hname : name = key
          · subst hname
            simp [hkey, hvalue, RegisterValues.set]
          · have hbeq : (name == key) = false := by simpa using hname
            simp [List.lookup_cons, hbeq, RegisterValues.set, hname]

/-- The registers that the rule for a name is evaluated over: only those of the
callee for the frame address, and with the frame address for the others. -/
def workingFor (registers : RegisterValues V) (cfa : V) (name : Text) :
    RegisterValues V :=
  if name = cfaName then registers else registers.set cfaName cfa

/-- What the rule in force for a name yields. -/
def FrameInfo.value? (info : FrameInfo) (registers : RegisterValues V) (cfa : V)
    (name : Text) : Option V :=
  (info.rule? name).bind fun expression =>
    evaluateForValue expression (workingFor registers cfa name)

theorem FrameInfo.Readable.name_ne_of_mem {info : FrameInfo}
    (hinfo : info.Readable) {rule : Text × Text}
    (h : rule ∈ info.registerRules) : rule.1 ≠ cfaName ∧ rule.1 ≠ raName := by
  have hlookup := lookup_of_mem info.distinct h
  constructor
  · intro hname
    have hnone := hinfo.cfa
    rw [FrameInfo.registerRule?, ← hname, hlookup] at hnone
    cases hnone
  · intro hname
    have hnone := hinfo.ra
    rw [FrameInfo.registerRule?, ← hname, hlookup] at hnone
    cases hnone

/-- The register rules in a `FindCallerRegs` that has found the frame address
and the return address. -/
theorem recoverRegisters_eq_some_iff_value {info : FrameInfo}
    (hinfo : info.Readable) (registers : RegisterValues V) (cfa : V)
    (callerRegisters : RegisterValues V) :
    recoverRegisters evaluateForValue (registers.set cfaName cfa)
        info.registerRules (fun _ => none) = some callerRegisters ↔
      ∀ name, callerRegisters name = (if name = cfaName ∨ name = raName then none
          else info.value? evaluateForValue registers cfa name) ∧
        (name ≠ cfaName → name ≠ raName → (info.rule? name).isSome →
          (callerRegisters name).isSome) := by
  have hvalue : ∀ name, ((info.registerRules.lookup name).bind fun expression =>
      evaluateForValue expression (registers.set cfaName cfa)) =
        if name = cfaName ∨ name = raName then none
        else info.value? evaluateForValue registers cfa name := by
    intro name
    by_cases hcfa : name = cfaName
    · have hnone : info.registerRules.lookup cfaName = none := hinfo.cfa
      simp [hcfa, hnone]
    · by_cases hra : name = raName
      · have hnone : info.registerRules.lookup raName = none := hinfo.ra
        simp [hra, hnone]
      · rw [if_neg (by simp [hcfa, hra]), FrameInfo.value?, workingFor,
          if_neg hcfa, info.rule?_register hcfa hra, FrameInfo.registerRule?]
  rw [recoverRegisters_eq_some_iff evaluateForValue _ info.distinct]
  simp only [Option.or_none, hvalue]
  constructor
  · rintro ⟨hsome, hcaller⟩ name
    refine ⟨hcaller name, fun hcfa hra hrule => ?_⟩
    rw [info.rule?_register hcfa hra] at hrule
    obtain ⟨expression, hexpression⟩ := Option.isSome_iff_exists.mp hrule
    rw [hcaller, ← hvalue, show info.registerRules.lookup name =
      some expression from hexpression]
    exact hsome (name, expression) (mem_of_lookup hexpression)
  · intro h
    refine ⟨fun rule hmem => ?_, fun name => (h name).1⟩
    obtain ⟨hcfa, hra⟩ := hinfo.name_ne_of_mem hmem
    have hlookup := lookup_of_mem info.distinct hmem
    have hsome := (h rule.1).2 hcfa hra (by
      rw [info.rule?_register hcfa hra, FrameInfo.registerRule?, hlookup]
      rfl)
    rwa [(h rule.1).1, ← hvalue, hlookup] at hsome

/-- The registers of the caller are found exactly when there are rules for the
frame address and the return address and every rule in force can be evaluated,
and then each name with a rule has the value of its expression. -/
theorem findCallerRegs_eq_some_iff {info : FrameInfo} (hinfo : info.Readable)
    (registers callerRegisters : RegisterValues V) :
    info.findCallerRegs evaluateForValue registers = some callerRegisters ↔
      ∃ cfa, info.value? evaluateForValue registers cfa cfaName = some cfa ∧
        (info.rule? raName).isSome ∧
        ∀ name, callerRegisters name =
            info.value? evaluateForValue registers cfa name ∧
          ((info.rule? name).isSome → (callerRegisters name).isSome) := by
  have hcfaValue : ∀ cfa, info.value? evaluateForValue registers cfa cfaName =
      if info.cfaRule = [] then none
      else evaluateForValue info.cfaRule registers := by
    intro cfa
    by_cases hnil : info.cfaRule = []
    · simp [FrameInfo.value?, info.rule?_cfaName, hnil]
    · simp [FrameInfo.value?, info.rule?_cfaName, hnil, workingFor]
  by_cases hcfaRule : info.cfaRule = []
  · simp [FrameInfo.findCallerRegs, hcfaRule, hcfaValue]
  by_cases hraRule : info.raRule = []
  · simp [FrameInfo.findCallerRegs, hraRule, info.rule?_raName]
  have hraValue : ∀ cfa, info.value? evaluateForValue registers cfa raName =
      evaluateForValue info.raRule (registers.set cfaName cfa) := by
    intro cfa
    simp [FrameInfo.value?, info.rule?_raName, hraRule, workingFor,
      cfaName_ne_raName.symm]
  simp only [hcfaValue, if_neg hcfaRule, info.rule?_raName, if_neg hraRule,
    Option.isSome_some, true_and]
  rw [FrameInfo.findCallerRegs, if_neg (by simp [hcfaRule, hraRule])]
  simp only [Option.bind_eq_bind, Option.bind_eq_some_iff]
  refine exists_congr fun cfa => and_congr_right fun hcfa => ?_
  constructor
  · rintro ⟨ra, hra, recovered, hrecovered, hcaller⟩ name
    obtain rfl := Option.some.inj hcaller
    have hname := (recoverRegisters_eq_some_iff_value evaluateForValue hinfo
      registers cfa recovered).mp hrecovered name
    by_cases hcfaName : name = cfaName
    · subst hcfaName
      simp [RegisterValues.set, hcfaValue, hcfaRule, hcfa]
    · by_cases hraName : name = raName
      · subst hraName
        simp [RegisterValues.set, hcfaName, hraValue, hra]
      · rw [if_neg (by simp [hcfaName, hraName])] at hname
        simpa [RegisterValues.set, hcfaName, hraName] using
          ⟨hname.1, hname.2 hcfaName hraName⟩
  · intro h
    have hcaller : callerRegisters cfaName = some cfa := by
      rw [(h cfaName).1, hcfaValue, if_neg hcfaRule, hcfa]
    have hrule : (info.rule? raName).isSome := by
      simp [info.rule?_raName, hraRule]
    obtain ⟨ra, hra⟩ := Option.isSome_iff_exists.mp ((h raName).2 hrule)
    refine ⟨ra, by rw [← hraValue, ← (h raName).1, hra], fun name =>
      if name = cfaName ∨ name = raName then none else callerRegisters name,
      ?_, ?_⟩
    · refine (recoverRegisters_eq_some_iff_value evaluateForValue hinfo
        registers cfa _).mpr fun name => ⟨?_, fun hcfaName hraName => ?_⟩
      · rw [(h name).1]
      · simpa [hcfaName, hraName] using (h name).2
    · congr 1
      funext name
      by_cases hcfaName : name = cfaName
      · simp [RegisterValues.set, hcfaName, hcaller]
      · by_cases hraName : name = raName
        · simp [RegisterValues.set, hraName, cfaName_ne_raName.symm, hra]
        · simp [RegisterValues.set, hcfaName, hraName]

end CallerRegs

section Sample

/-- The rules in force at 24, and a rule for a register. -/
def sampleInfo : FrameInfo :=
  build listSetters [".cfa: $ebp .ra: $eip $ebx: .cfa".toList]

/-- The registers of a callee. -/
def sampleRegisters : RegisterValues ℕ := fun name =>
  [("$ebp".toList, 5), ("$eip".toList, 7)].lookup name

/-- An evaluator of expressions that are single registers. -/
def sampleEvaluate (expression : Text) (registers : RegisterValues ℕ) :
    Option ℕ :=
  registers expression

theorem findCallerRegs_sample_isSome :
    (sampleInfo.findCallerRegs sampleEvaluate sampleRegisters).isSome := by
  decide +kernel

theorem findCallerRegs_sample :
    ∃ cfa, sampleInfo.value? sampleEvaluate sampleRegisters cfa cfaName =
        some cfa ∧ (sampleInfo.rule? raName).isSome ∧
      ∀ name, (sampleInfo.findCallerRegs sampleEvaluate sampleRegisters).get
            findCallerRegs_sample_isSome name =
          sampleInfo.value? sampleEvaluate sampleRegisters cfa name ∧
        ((sampleInfo.rule? name).isSome →
          ((sampleInfo.findCallerRegs sampleEvaluate sampleRegisters).get
            findCallerRegs_sample_isSome name).isSome) :=
  (findCallerRegs_eq_some_iff sampleEvaluate
    (readable_build lawful_listSetters _) sampleRegisters _).mp
    (Option.some_get findCallerRegs_sample_isSome).symm

end Sample

end CallFrameInfo
end MiscCode
