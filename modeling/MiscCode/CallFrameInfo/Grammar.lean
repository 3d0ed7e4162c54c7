import MiscCode.CallFrameInfo.Rules

/-!
# What the parser of rule sets accepts

A rule set is accepted exactly when it is a sequence of rules, at least one of
them, each a name with a colon and then at least one component of its
expression.  The handler is then called for these rules in turn.
-/

namespace MiscCode
namespace CallFrameInfo

open CString Words

/-! ## Rules as they are written -/

/-- What `strtok_r` can yield. -/
structure IsToken (w : Text) : Prop where
  isWord : IsWord isBreak w
  nul_notMem : nul ∉ w

/-- A token that does not introduce a rule. -/
structure IsComponent (w : Text) : Prop where
  isToken : IsToken w
  unnamed : w.getLast? ≠ some ':'

/-- A rule of a rule set. -/
structure Rule where
  name : Text
  components : List Text
  name_isToken : IsToken name
  components_ne_nil : components ≠ []
  isComponent : ∀ w ∈ components, IsComponent w

/-- The expression made of components. -/
def expressionOf (components : List Text) : Text :=
  [' '].intercalate components

/-- The expression of a rule, with single blanks. -/
def Rule.expression (rule : Rule) : Text := expressionOf rule.components

/-- The tokens of a rule. -/
def Rule.tokens (rule : Rule) : List Text :=
  (rule.name ++ [':']) :: rule.components

variable {σ : Type}

/-- The handler is called for a rule. -/
def Handler.read (handler : Handler σ) (s : σ) (rule : Rule) : σ :=
  handler.rule rule.name rule.expression s

theorem Rule.tokens_ne_nil (rule : Rule) : rule.tokens ≠ [] :=
  List.cons_ne_nil _ _

theorem flatMap_tokens_eq_nil_iff {rules : List Rule} :
    rules.flatMap Rule.tokens = [] ↔ rules = [] := by
  cases rules with
  | nil => simp
  | cons rule rules => simp [Rule.tokens_ne_nil]

theorem expressionOf_concat (components : List Text) (w : Text) :
    expressionOf (components ++ [w]) =
      if components = [] then w else expressionOf components ++ ' ' :: w := by
  by_cases hnil : components = []
  · simp [hnil, expressionOf]
  · rw [if_neg hnil, expressionOf,
      intercalate_append _ hnil (List.cons_ne_nil _ _)]
    simp [expressionOf]

theorem expressionOf_eq_nil_iff {components : List Text}
    (hne : ∀ w ∈ components, w ≠ []) :
    expressionOf components = [] ↔ components = [] := by
  cases components with
  | nil => simp [expressionOf]
  | cons w components =>
      have hw := hne w List.mem_cons_self
      cases components with
      | nil => simpa [expressionOf] using hw
      | cons v components =>
          simp [expressionOf, List.intercalate_cons_cons]

/-! ## One token -/

/-- A parser that has read a name and the components behind it. -/
def Parser.reading (name : Text) (components : List Text) (s : σ) : Parser σ where
  name := name
  expression := expressionOf components
  handled := s

theorem IsComponent.ne_nil {w : Text} (hw : IsComponent w) : w ≠ [] :=
  hw.isToken.isWord.ne_nil

theorem Rule.expression_ne_nil (rule : Rule) : rule.expression ≠ [] := by
  rw [Rule.expression, ne_eq, expressionOf_eq_nil_iff]
  · exact rule.components_ne_nil
  · exact fun w hw => (rule.isComponent w hw).ne_nil

theorem readToken_component (handler : Handler σ) (name : Text)
    {components : List Text} (hne : ∀ w ∈ components, w ≠ []) (s : σ) {w : Text}
    (hw : IsComponent w) :
    readToken handler (.reading name components s) w =
      .ok (.reading name (components ++ [w]) s) := by
  simp only [readToken, Parser.reading, if_neg hw.unnamed,
    expressionOf_concat, ne_eq, expressionOf_eq_nil_iff hne]
  by_cases hnil : components = []
  · simp [hnil, expressionOf]
  · simp [hnil]

theorem report_reading (handler : Handler σ) {name : Text} (hname : name ≠ [])
    {components : List Text} (hne : ∀ w ∈ components, w ≠ []) (s : σ) :
    (Parser.reading name components s).report handler =
      if components = [] then none
      else some (handler.rule name (expressionOf components) s) := by
  simp [Parser.report, Parser.reading, hname, expressionOf_eq_nil_iff hne]

theorem two_le_length_name {name : Text} (hname : name ≠ []) :
    ¬ (name ++ [':']).length < 2 := by
  have := List.length_pos_iff.mpr hname
  simp only [List.length_append, List.length_singleton]
  omega

/-- A name ends the rule in front of it, which must have an expression. -/
theorem readToken_name (handler : Handler σ) {name : Text} (hname : name ≠ [])
    {components : List Text} (hne : ∀ w ∈ components, w ≠ []) (s : σ)
    {next : Text} (hnext : next ≠ []) :
    readToken handler (.reading name components s) (next ++ [':']) =
      if components = [] then .error s
      else .ok (.reading next []
        (handler.rule name (expressionOf components) s)) := by
  rw [readToken, if_pos (by simp), if_neg (two_le_length_name hnext),
    if_pos (.inl (by simpa [Parser.reading] using hname)),
    report_reading handler hname hne]
  by_cases hnil : components = []
  · simp [hnil, Parser.reading]
  · simp [hnil, Parser.reading, expressionOf]

/-- The name at the start of a rule set. -/
theorem readToken_first (handler : Handler σ) {name : Text} (hname : name ≠ [])
    (s : σ) : readToken handler ⟨[], [], s⟩ (name ++ [':']) =
      .ok (.reading name [] s) := by
  rw [readToken, if_pos (by simp), if_neg (two_le_length_name hname)]
  simp [Parser.reading, expressionOf]

theorem readToken_unnamed (handler : Handler σ) {w : Text} (hw : IsComponent w)
    (s : σ) : readToken handler ⟨[], [], s⟩ w = .ok ⟨[], w, s⟩ := by
  simp [readToken, hw.unnamed]

theorem readToken_colon (handler : Handler σ) (parser : Parser σ) :
    readToken handler parser [':'] = .error parser.handled := by
  simp [readToken]

/-! ## The rest of a rule set -/

/-- The tokens that are left, and the end of `Parse`. -/
def readTokens (handler : Handler σ) (parser : Parser σ) (tokens : List Text) :
    Bool × σ :=
  Parser.finish handler (tokens.foldlM (readToken handler) parser)

theorem readTokens_cons_ok {handler : Handler σ} {parser parser' : Parser σ}
    {token : Text} (h : readToken handler parser token = .ok parser')
    (tokens : List Text) :
    readTokens handler parser (token :: tokens) =
      readTokens handler parser' tokens := by
  rw [readTokens, List.foldlM_cons, h]
  rfl

theorem readTokens_cons_error {handler : Handler σ} {parser : Parser σ} {s : σ}
    {token : Text} (h : readToken handler parser token = .error s)
    (tokens : List Text) :
    readTokens handler parser (token :: tokens) = (false, s) := by
  rw [readTokens, List.foldlM_cons, h]
  rfl

/-- A token introduces a rule, or is a component, or is only a colon. -/
theorem token_cases {token : Text} (h : IsToken token) :
    token = [':'] ∨ (∃ name, IsToken name ∧ token = name ++ [':']) ∨
      IsComponent token := by
  by_cases hcolon : token.getLast? = some ':'
  · obtain ⟨name, rfl⟩ := List.getLast?_eq_some_iff.mp hcolon
    by_cases hname : name = []
    · exact .inl (by rw [hname]; rfl)
    · refine .inr (.inl ⟨name, ⟨⟨hname, ?_⟩, ?_⟩, rfl⟩)
      · intro c hc
        exact h.isWord.unbroken c (List.mem_append_left _ hc)
      · intro hnul
        exact h.nul_notMem (List.mem_append_left _ hnul)
  · exact .inr (.inr ⟨h, hcolon⟩)

theorem not_isComponent_name {name : Text} : ¬ IsComponent (name ++ [':']) :=
  fun h => h.unnamed (by simp)

/-- Tokens that go on with components and then with rules. -/
structure Continues (tokens more : List Text) (rules : List Rule) : Prop where
  isComponent : ∀ w ∈ more, IsComponent w
  tokens_eq : tokens = more ++ rules.flatMap Rule.tokens

theorem continues_nil_iff {more : List Text} {rules : List Rule} :
    Continues [] more rules ↔ more = [] ∧ rules = [] := by
  constructor
  · intro h
    obtain ⟨hmore, hrules⟩ := List.append_eq_nil_iff.mp h.tokens_eq.symm
    exact ⟨hmore, flatMap_tokens_eq_nil_iff.mp hrules⟩
  · rintro ⟨rfl, rfl⟩
    exact ⟨by simp, rfl⟩

theorem continues_component_iff {w : Text} (hw : IsComponent w)
    {tokens more : List Text} {rules : List Rule} :
    Continues (w :: tokens) more rules ↔
      ∃ more', more = w :: more' ∧ Continues tokens more' rules := by
  constructor
  · rintro ⟨hmore, htok⟩
    cases more with
    | nil =>
        cases rules with
        | nil => simp at htok
        | cons rule rules =>
            obtain ⟨rfl, -⟩ := List.cons.inj htok
            exact absurd hw not_isComponent_name
    | cons v more =>
        obtain ⟨rfl, hrest⟩ := List.cons.inj htok
        exact ⟨more, rfl, (List.forall_mem_cons.mp hmore).2, hrest⟩
  · rintro ⟨more, rfl, hmore, rfl⟩
    exact ⟨List.forall_mem_cons.mpr ⟨hw, hmore⟩, rfl⟩

/-- A name starts the next rule, whose components come behind it. -/
theorem continues_name_iff (name : Text) {tokens more : List Text}
    {rules : List Rule} :
    Continues ((name ++ [':']) :: tokens) more rules ↔
      more = [] ∧ ∃ rule rules', rules = rule :: rules' ∧ rule.name = name ∧
        Continues tokens rule.components rules' := by
  constructor
  · rintro ⟨hmore, htok⟩
    cases more with
    | cons w more =>
        obtain ⟨rfl, -⟩ := List.cons.inj htok
        exact absurd (hmore _ List.mem_cons_self) not_isComponent_name
    | nil =>
        cases rules with
        | nil => simp at htok
        | cons rule rules =>
            obtain ⟨hname, htok⟩ := List.cons.inj htok
            exact ⟨rfl, rule, rules, rfl, List.append_cancel_right hname.symm,
              rule.isComponent, htok⟩
  · rintro ⟨rfl, rule, rules, rfl, rfl, -, rfl⟩
    exact ⟨by simp, rfl⟩

/-- What is left behind the name of a rule is accepted when it goes on with
components, so that there is an expression, and then with rules. -/
theorem readTokens_reading_iff (handler : Handler σ) {tokens : List Text}
    (htokens : ∀ token ∈ tokens, IsToken token) (s' : σ) {name : Text}
    {components : List Text} {s : σ} (hname : IsToken name)
    (hne : ∀ w ∈ components, w ≠ []) :
    readTokens handler (.reading name components s) tokens = (true, s') ↔
      ∃ more rules, components ++ more ≠ [] ∧ Continues tokens more rules ∧
        s' = rules.foldl handler.read
          (handler.rule name (expressionOf (components ++ more)) s) := by
  induction tokens generalizing name components s with
  | nil =>
      have hend : readTokens handler (.reading name components s) [] =
          (true, s') ↔ components ≠ [] ∧
            s' = handler.rule name (expressionOf components) s := by
        rw [readTokens, List.foldlM_nil]
        show Parser.finish handler (.ok _) = _ ↔ _
        rw [Parser.finish, report_reading handler hname.isWord.ne_nil hne]
        by_cases hnil : components = []
        · simp [hnil]
        · simp [hnil, eq_comm]
      rw [hend]
      constructor
      · rintro ⟨hnil, rfl⟩
        exact ⟨[], [], by simpa using hnil, continues_nil_iff.mpr ⟨rfl, rfl⟩,
          by simp⟩
      · rintro ⟨more, rules, hnil, hcontinues, rfl⟩
        obtain ⟨rfl, rfl⟩ := continues_nil_iff.mp hcontinues
        simpa using hnil
  | cons token tokens ih =>
      obtain ⟨htoken, hrest⟩ := List.forall_mem_cons.mp htokens
      rcases token_cases htoken with rfl | ⟨next, hnext, rfl⟩ | hcomponent
      · -- a colon alone would be the name of a rule without a name
        rw [readTokens_cons_error (readToken_colon handler _)]
        constructor
        · intro h
          simp at h
        · rintro ⟨more, rules, -, hcontinues, -⟩
          obtain ⟨-, rule, -, -, hnil, -⟩ :=
            (continues_name_iff []).mp hcontinues
          exact absurd hnil rule.name_isToken.isWord.ne_nil
      · have hread := readToken_name handler hname.isWord.ne_nil hne s
          hnext.isWord.ne_nil
        by_cases hnil : components = []
        · rw [readTokens_cons_error (by rw [hread, if_pos hnil])]
          constructor
          · intro h
            simp at h
          · rintro ⟨more, rules, hsome, hcontinues, -⟩
            obtain ⟨rfl, -⟩ := (continues_name_iff _).mp hcontinues
            simp [hnil] at hsome
        · rw [readTokens_cons_ok (by rw [hread, if_neg hnil]),
            ih hrest hnext (by simp)]
          constructor
          · rintro ⟨more, rules, hsome, hcontinues, rfl⟩
            refine ⟨[], ⟨next, more, hnext, hsome, hcontinues.isComponent⟩ ::
              rules, by simpa using hnil, ?_, by simp; rfl⟩
            exact (continues_name_iff _).mpr ⟨rfl, _, _, rfl, rfl, hcontinues⟩
          · rintro ⟨more, rules, -, hcontinues, rfl⟩
            obtain ⟨rfl, rule, rules', rfl, rfl, hrules⟩ :=
              (continues_name_iff _).mp hcontinues
            exact ⟨rule.components, rules', rule.components_ne_nil, hrules,
              by simp; rfl⟩
      · have hne' : ∀ w ∈ components ++ [token], w ≠ [] := by
          intro w hw
          rcases List.mem_append.mp hw with hw | hw
          · exact hne w hw
          · obtain rfl := List.mem_singleton.mp hw
            exact hcomponent.ne_nil
        rw [readTokens_cons_ok (readToken_component handler name hne s
          hcomponent), ih hrest hname hne']
        constructor
        · rintro ⟨more, rules, -, hcontinues, rfl⟩
          exact ⟨token :: more, rules, by simp,
            (continues_component_iff hcomponent).mpr ⟨more, rfl, hcontinues⟩,
            by simp⟩
        · rintro ⟨more, rules, -, hcontinues, rfl⟩
          obtain ⟨more', rfl, hcontinues'⟩ :=
            (continues_component_iff hcomponent).mp hcontinues
          exact ⟨more', rules, by simp, hcontinues', by simp⟩

/-! ## A whole rule set -/

theorem isToken_of_mem_ruleTokens {ruleSet token : Text}
    (h : token ∈ ruleTokens ruleSet) : IsToken token := by
  refine ⟨isWord_of_mem_words h, ?_⟩
  intro hnul
  exact nul_notMem_text nul ruleSet (mem_of_mem_words h hnul)

/-- Without a name in front of it, an expression is refused at the next name or
at the end. -/
theorem readTokens_unnamed (handler : Handler σ) (tokens : List Text)
    (parser : Parser σ) (hname : parser.name = [])
    (hexpression : parser.expression ≠ []) :
    readTokens handler parser tokens = (false, parser.handled) := by
  have hreport : parser.report handler = none := by simp [Parser.report, hname]
  induction tokens generalizing parser with
  | nil =>
      rw [readTokens, List.foldlM_nil]
      show Parser.finish handler (.ok parser) = _
      rw [Parser.finish, hreport]
      rfl
  | cons token tokens ih =>
      by_cases hcolon : token.getLast? = some ':'
      · apply readTokens_cons_error
        simp [readToken, hcolon, hexpression, hreport]
      · have hread : readToken handler parser token =
            .ok { parser with
              expression := parser.expression ++ ' ' :: token } := by
          simp [readToken, hcolon, hexpression]
        rw [readTokens_cons_ok hread]
        exact ih _ hname (by simp) (by simp [Parser.report, hname])

/-- The start of a rule set has to be a name. -/
theorem readTokens_start_iff (handler : Handler σ) {tokens : List Text}
    (htokens : ∀ token ∈ tokens, IsToken token) (s s' : σ) :
    readTokens handler ⟨[], [], s⟩ tokens = (true, s') ↔
      ∃ rules, rules ≠ [] ∧ Continues tokens [] rules ∧
        s' = rules.foldl handler.read s := by
  cases tokens with
  | nil =>
      constructor
      · intro h
        simp [readTokens, Parser.finish, Parser.report, pure, Except.pure] at h
      · rintro ⟨rules, hne, hcontinues, -⟩
        exact absurd (continues_nil_iff.mp hcontinues).2 hne
  | cons token tokens =>
      obtain ⟨htoken, hrest⟩ := List.forall_mem_cons.mp htokens
      rcases token_cases htoken with rfl | ⟨name, hname, rfl⟩ | hcomponent
      · rw [readTokens_cons_error (readToken_colon handler _)]
        constructor
        · intro h
          simp at h
        · rintro ⟨rules, -, hcontinues, -⟩
          obtain ⟨-, rule, -, -, hnil, -⟩ :=
            (continues_name_iff []).mp hcontinues
          exact absurd hnil rule.name_isToken.isWord.ne_nil
      · rw [readTokens_cons_ok (readToken_first handler hname.isWord.ne_nil s),
          readTokens_reading_iff handler hrest s' hname (by simp)]
        constructor
        · rintro ⟨more, rules, hsome, hcontinues, rfl⟩
          refine ⟨⟨name, more, hname, hsome, hcontinues.isComponent⟩ :: rules,
            by simp, ?_, rfl⟩
          exact (continues_name_iff _).mpr ⟨rfl, _, _, rfl, rfl, hcontinues⟩
        · rintro ⟨rules, -, hcontinues, rfl⟩
          obtain ⟨-, rule, rules', rfl, rfl, hrules⟩ :=
            (continues_name_iff _).mp hcontinues
          exact ⟨rule.components, rules', rule.components_ne_nil, hrules, rfl⟩
      · rw [readTokens_cons_ok (readToken_unnamed handler hcomponent s),
          readTokens_unnamed handler tokens _ rfl hcomponent.ne_nil]
        constructor
        · intro h
          simp at h
        · rintro ⟨rules, -, hcontinues, -⟩
          obtain ⟨more, hmore, -⟩ :=
            (continues_component_iff hcomponent).mp hcontinues
          cases hmore

/-- A rule set is accepted exactly when its tokens are those of some rules, at
least one, and then the handler is called for these rules in turn. -/
theorem parse_eq_true_iff (handler : Handler σ) (ruleSet : Text) (s s' : σ) :
    parse handler ruleSet s = (true, s') ↔
      ∃ rules : List Rule, rules ≠ [] ∧
        ruleTokens ruleSet = rules.flatMap Rule.tokens ∧
        s' = rules.foldl handler.read s := by
  have htokens : ∀ token ∈ ruleTokens ruleSet, IsToken token :=
    fun token => isToken_of_mem_ruleTokens
  have hparse : parse handler ruleSet s =
      readTokens handler ⟨[], [], s⟩ (ruleTokens ruleSet) := rfl
  have hstart : (parse handler ruleSet s = (true, s') ↔
      ∃ rules, rules ≠ [] ∧ Continues (ruleTokens ruleSet) [] rules ∧
        s' = rules.foldl handler.read s) := by
    rw [hparse]
    exact readTokens_start_iff handler htokens s s'
  rw [hstart]
  constructor
  · rintro ⟨rules, hne, hcontinues, rfl⟩
    exact ⟨rules, hne, hcontinues.tokens_eq, rfl⟩
  · rintro ⟨rules, hne, htok, rfl⟩
    exact ⟨rules, hne, ⟨by simp, htok⟩, rfl⟩

/-! ## What the handler is told -/

theorem readTokens_reading_keeps {handler : Handler σ} {P : σ → Prop}
    (hread : ∀ s rule, P s → P (handler.read s rule)) {tokens : List Text}
    (htokens : ∀ token ∈ tokens, IsToken token) {name : Text}
    {components : List Text} {s : σ} (hname : IsToken name)
    (hcomponents : ∀ w ∈ components, IsComponent w) (hs : P s) :
    P (readTokens handler (.reading name components s) tokens).2 := by
  have hne : ∀ w ∈ components, w ≠ [] := fun w hw => (hcomponents w hw).ne_nil
  have hreported (hnil : components ≠ []) :
      P (handler.rule name (expressionOf components) s) :=
    hread s ⟨name, components, hname, hnil, hcomponents⟩ hs
  induction tokens generalizing name components s with
  | nil =>
      rw [readTokens, List.foldlM_nil]
      show P (Parser.finish handler (.ok _)).2
      rw [Parser.finish, report_reading handler hname.isWord.ne_nil hne]
      by_cases hnil : components = []
      · simpa [hnil, Parser.reading] using hs
      · simpa [hnil] using hreported hnil
  | cons token tokens ih =>
      obtain ⟨htoken, hrest⟩ := List.forall_mem_cons.mp htokens
      rcases token_cases htoken with rfl | ⟨next, hnext, rfl⟩ | hcomponent
      · rwa [readTokens_cons_error (readToken_colon handler _)]
      · have hstep := readToken_name handler hname.isWord.ne_nil hne s
          hnext.isWord.ne_nil
        by_cases hnil : components = []
        · rwa [readTokens_cons_error (by rw [hstep, if_pos hnil])]
        · rw [readTokens_cons_ok (by rw [hstep, if_neg hnil])]
          exact ih hrest hnext (by simp) (hreported hnil) (by simp) (by simp)
      · rw [readTokens_cons_ok (readToken_component handler name hne s
          hcomponent)]
        have hall : ∀ w ∈ components ++ [token], IsComponent w := by
          intro w hw
          rcases List.mem_append.mp hw with hw | hw
          · exact hcomponents w hw
          · exact List.mem_singleton.mp hw ▸ hcomponent
        exact ih hrest hname hall hs (fun w hw => (hall w hw).ne_nil)
          fun hnil => hread s ⟨name, _, hname, hnil, hall⟩ hs

/-- What reading any rule keeps, parsing keeps, whether or not the rule set is
accepted. -/
theorem parse_keeps {handler : Handler σ} {P : σ → Prop}
    (hread : ∀ s rule, P s → P (handler.read s rule)) (ruleSet : Text) {s : σ}
    (hs : P s) : P (parse handler ruleSet s).2 := by
  have htokens : ∀ token ∈ ruleTokens ruleSet, IsToken token :=
    fun token => isToken_of_mem_ruleTokens
  show P (readTokens handler ⟨[], [], s⟩ (ruleTokens ruleSet)).2
  generalize ruleTokens ruleSet = tokens at htokens ⊢
  cases tokens with
  | nil =>
      simpa [readTokens, Parser.finish, Parser.report, pure, Except.pure]
        using hs
  | cons token tokens =>
      obtain ⟨htoken, hrest⟩ := List.forall_mem_cons.mp htokens
      rcases token_cases htoken with rfl | ⟨name, hname, rfl⟩ | hcomponent
      · rwa [readTokens_cons_error (readToken_colon handler _)]
      · rw [readTokens_cons_ok (readToken_first handler hname.isWord.ne_nil s)]
        exact readTokens_reading_keeps hread hrest hname (by simp) hs
      · rwa [readTokens_cons_ok (readToken_unnamed handler hcomponent s),
          readTokens_unnamed handler tokens _ rfl hcomponent.ne_nil]

/-! ## The rules that are reported -/

section Map

variable {τ : Type} {handler : Handler σ} {handler' : Handler τ} {f : σ → τ}

/-- The parser with another handler's state. -/
def Parser.map (f : σ → τ) (parser : Parser σ) : Parser τ where
  name := parser.name
  expression := parser.expression
  handled := f parser.handled

/-- Handlers that follow one another are told the same at a token. -/
theorem readToken_map
    (hrule : ∀ name expression s,
      handler'.rule name expression (f s) = f (handler.rule name expression s))
    (parser : Parser σ) (token : Text) :
    readToken handler' (parser.map f) token =
      match readToken handler parser token with
      | .error s => .error (f s)
      | .ok parser' => .ok (parser'.map f) := by
  have hreport : (parser.map f).report handler' =
      (parser.report handler).map f := by
    simp only [Parser.report, Parser.map, hrule]
    split
    · rfl
    · rfl
  simp only [readToken, hreport]
  by_cases hcolon : token.getLast? = some ':'
  · rw [if_pos hcolon, if_pos hcolon]
    by_cases hlength : token.length < 2
    · rw [if_pos hlength, if_pos hlength]
      rfl
    · rw [if_neg hlength, if_neg hlength]
      by_cases hopen : parser.name ≠ [] ∨ parser.expression ≠ []
      · rw [if_pos hopen, if_pos (show (parser.map f).name ≠ [] ∨
          (parser.map f).expression ≠ [] from hopen)]
        cases parser.report handler with
        | none => rfl
        | some handled => rfl
      · rw [if_neg hopen, if_neg (show ¬ ((parser.map f).name ≠ [] ∨
          (parser.map f).expression ≠ []) from hopen)]
        rfl
  · rw [if_neg hcolon, if_neg hcolon]
    by_cases hexpression : parser.expression ≠ []
    · rw [if_pos hexpression,
        if_pos (show (parser.map f).expression ≠ [] from hexpression)]
      rfl
    · rw [if_neg hexpression,
        if_neg (show ¬ (parser.map f).expression ≠ [] from hexpression)]
      rfl

theorem readTokens_map
    (hrule : ∀ name expression s,
      handler'.rule name expression (f s) = f (handler.rule name expression s))
    (tokens : List Text) (parser : Parser σ) :
    readTokens handler' (parser.map f) tokens =
      ((readTokens handler parser tokens).1,
        f (readTokens handler parser tokens).2) := by
  induction tokens generalizing parser with
  | nil =>
      simp only [readTokens, List.foldlM_nil, pure, Except.pure, Parser.finish,
        Parser.report, Parser.map, hrule]
      split
      · rfl
      · rfl
  | cons token tokens ih =>
      have hread := readToken_map hrule parser token
      cases htoken : readToken handler parser token with
      | error s =>
          rw [htoken] at hread
          rw [readTokens_cons_error hread, readTokens_cons_error htoken]
      | ok parser' =>
          rw [htoken] at hread
          rw [readTokens_cons_ok hread, readTokens_cons_ok htoken, ih]

end Map

/-- A handler that writes the rules down. -/
def collector : Handler (List (Text × Text)) where
  cfaRule expression rules := rules ++ [(cfaName, expression)]
  raRule expression rules := rules ++ [(raName, expression)]
  registerRule name expression rules := rules ++ [(name, expression)]

theorem collector_rule (name expression : Text) (rules : List (Text × Text)) :
    collector.rule name expression rules = rules ++ [(name, expression)] := by
  rw [Handler.rule]
  split
  · rename_i hcfa
    rw [hcfa]
    rfl
  · split
    · rename_i hra
      rw [hra]
      rfl
    · rfl

/-- The rules that `Parse` reports, in turn, also of a rule set that it does not
accept. -/
def reported (ruleSet : Text) : List (Text × Text) :=
  (parse collector ruleSet []).2

/-- A handler is told the rules that are reported. -/
theorem parse_eq_reported (handler : Handler σ) (ruleSet : Text) (s : σ) :
    parse handler ruleSet s = ((parse collector ruleSet []).1,
      (reported ruleSet).foldl
        (fun s rule => handler.rule rule.1 rule.2 s) s) := by
  have hrule : ∀ name expression rules, handler.rule name expression
      (rules.foldl (fun s rule => handler.rule rule.1 rule.2 s) s) =
        (collector.rule name expression rules).foldl
          (fun s rule => handler.rule rule.1 rule.2 s) s := by
    intro name expression rules
    rw [collector_rule, List.foldl_append]
    rfl
  exact readTokens_map hrule (ruleTokens ruleSet) ⟨[], [], []⟩

/-- A rule that is reported has an expression. -/
theorem expression_ne_nil_of_reported {ruleSet : Text} :
    ∀ rule ∈ reported ruleSet, rule.2 ≠ [] := by
  have hread : ∀ (rules : List (Text × Text)) (rule : Rule),
      (∀ reported ∈ rules, reported.2 ≠ []) →
        ∀ reported ∈ collector.read rules rule, reported.2 ≠ [] := by
    intro rules rule hrules
    rw [Handler.read, collector_rule]
    exact List.forall_mem_append.mpr ⟨hrules,
      List.forall_mem_singleton.mpr rule.expression_ne_nil⟩
  exact parse_keeps hread ruleSet (List.forall_mem_nil _)

end CallFrameInfo
end MiscCode
