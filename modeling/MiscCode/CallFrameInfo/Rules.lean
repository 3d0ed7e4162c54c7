import MiscCode.Support.CString
import MiscCode.Support.Words
import Mathlib.Data.Nat.Notation

/-!
# Call frame information

A rule set says how the registers of a caller are found from those of its
callee: a sequence of names, each with a colon behind it and the expression
that yields the register's value.  `CFIRuleParser` reads a rule set and hands
the rules to a handler, `CFIFrameInfo` holds the rules in force and evaluates
them.

A string is the list of its characters.  The class `CFIFrameInfo` itself and
the evaluator of expressions are declared in headers that are not in the
repository.
-/

namespace MiscCode
namespace CallFrameInfo

open CString Words

/-- A string. -/
abbrev Text := List Char

/-- The character that ends a C string. -/
def nul : Char := '\x00'

/-- The characters in `token_breaks`. -/
def tokenBreaks : List Char := [' ', '\t', '\r', '\n']

/-- Whether `strtok_r` ends a token at a character. -/
def isBreak (c : Char) : Bool := c ∈ tokenBreaks

/-- The name of the canonical frame address. -/
def cfaName : Text := ['.', 'c', 'f', 'a']

/-- The name of the return address. -/
def raName : Text := ['.', 'r', 'a']

/-! ## `CFIRuleParser` -/

/-- A `CFIRuleParser::Handler` with its state. -/
structure Handler (σ : Type) where
  cfaRule : (expression : Text) → σ → σ
  raRule : (expression : Text) → σ → σ
  registerRule : (name expression : Text) → σ → σ

/-- A `CFIRuleParser` and the state of its handler. -/
structure Parser (σ : Type) where
  name : Text
  expression : Text
  handled : σ
  deriving DecidableEq, Repr

variable {σ : Type}

/-- Which method of the handler a rule is for. -/
def Handler.rule (handler : Handler σ) (name expression : Text) (s : σ) : σ :=
  if name = cfaName then handler.cfaRule expression s
  else if name = raName then handler.raRule expression s
  else handler.registerRule name expression s

/-- `Report`, which refuses a rule without a name or an expression. -/
def Parser.report (handler : Handler σ) (parser : Parser σ) : Option σ :=
  if parser.name = [] ∨ parser.expression = [] then none
  else some (handler.rule parser.name parser.expression parser.handled)

/-- A turn of the loop in `Parse`, or what the handler holds when the rule set
is refused. -/
def readToken (handler : Handler σ) (parser : Parser σ) (token : Text) :
    Except σ (Parser σ) :=
  if token.getLast? = some ':' then
    if token.length < 2 then .error parser.handled
    else if parser.name ≠ [] ∨ parser.expression ≠ [] then
      (parser.report handler).elim (.error parser.handled) fun handled =>
        .ok { name := token.dropLast, expression := [], handled := handled }
    else
      .ok { parser with name := token.dropLast, expression := [] }
  else if parser.expression ≠ [] then
    .ok { parser with expression := parser.expression ++ ' ' :: token }
  else
    .ok { parser with expression := parser.expression ++ token }

/-- The tokens of a rule set: its copy is a C string, which ends at the first
NUL. -/
def ruleTokens (ruleSet : Text) : List Text :=
  words isBreak (text nul ruleSet)

/-- The end of `Parse`, when no token is left. -/
def Parser.finish (handler : Handler σ) : Except σ (Parser σ) → Bool × σ
  | .error s => (false, s)
  | .ok parser =>
      (parser.report handler).elim (false, parser.handled) fun s => (true, s)

/-- `Parse`: whether the rule set is accepted, and the handler afterwards. -/
def parse (handler : Handler σ) (ruleSet : Text) (s : σ) : Bool × σ :=
  Parser.finish handler
    ((ruleTokens ruleSet).foldlM (readToken handler)
      { name := [], expression := [], handled := s })

/-! ## `CFIFrameInfo` -/

/-- A `CFIFrameInfo`; the register rules stand in the order of the map. -/
structure FrameInfo where
  cfaRule : Text
  raRule : Text
  registerRules : List (Text × Text)
  distinct : (registerRules.map Prod.fst).Nodup
  deriving DecidableEq, Repr

/-- The rule for a register. -/
def FrameInfo.registerRule? (info : FrameInfo) (name : Text) : Option Text :=
  info.registerRules.lookup name

/-- A `CFIFrameInfo` without rules. -/
def FrameInfo.fresh : FrameInfo where
  cfaRule := []
  raRule := []
  registerRules := []
  distinct := List.nodup_nil

/-- `stream << name << ": " << expression`, with a blank in front unless it is
the first rule. -/
def writeRule (stream name expression : Text) : Text :=
  (if stream ≠ [] then stream ++ [' '] else stream) ++
    name ++ [':', ' '] ++ expression

/-- `Serialize`. -/
def FrameInfo.serialize (info : FrameInfo) : Text :=
  let stream :=
    if info.cfaRule ≠ [] then writeRule [] cfaName info.cfaRule else []
  let stream :=
    if info.raRule ≠ [] then writeRule stream raName info.raRule else stream
  info.registerRules.foldl
    (fun stream rule => writeRule stream rule.1 rule.2) stream

/-- The setters that `CFIFrameInfoParseHandler` calls. -/
structure Setters where
  setCFARule : Text → FrameInfo → FrameInfo
  setRARule : Text → FrameInfo → FrameInfo
  setRegisterRule : (name expression : Text) → FrameInfo → FrameInfo

/-- The setters set one rule and leave the others alone. -/
structure Setters.Lawful (setters : Setters) : Prop where
  setCFARule : ∀ expression info,
    setters.setCFARule expression info = { info with cfaRule := expression }
  setRARule : ∀ expression info,
    setters.setRARule expression info = { info with raRule := expression }
  setRegisterRule : ∀ name expression info other,
    (setters.setRegisterRule name expression info).registerRule? other =
      if other = name then some expression else info.registerRule? other
  setRegisterRule_cfaRule : ∀ name expression info,
    (setters.setRegisterRule name expression info).cfaRule = info.cfaRule
  setRegisterRule_raRule : ∀ name expression info,
    (setters.setRegisterRule name expression info).raRule = info.raRule

/-- `CFIFrameInfoParseHandler`. -/
def Setters.parseHandler (setters : Setters) : Handler FrameInfo where
  cfaRule := setters.setCFARule
  raRule := setters.setRARule
  registerRule := setters.setRegisterRule

/-- `ParseCFIRuleSet`. -/
def parseCFIRuleSet (setters : Setters) (ruleSet : Text) (info : FrameInfo) :
    Bool × FrameInfo :=
  parse setters.parseHandler ruleSet info

/-! ## The registers of the caller -/

/-- A `RegisterValueMap`. -/
abbrev RegisterValues (V : Type) := Text → Option V

/-- `registers[name] = value`. -/
def RegisterValues.set {V : Type} (registers : RegisterValues V) (name : Text)
    (value : V) : RegisterValues V :=
  fun other => if other = name then some value else registers other

/-- The loop over `register_rules_` in `FindCallerRegs`; every expression is
evaluated over a fresh copy of the callee's registers with the frame address. -/
def recoverRegisters {V : Type}
    (evaluateForValue : Text → RegisterValues V → Option V)
    (working : RegisterValues V) :
    List (Text × Text) → RegisterValues V → Option (RegisterValues V)
  | [], callerRegisters => some callerRegisters
  | (name, expression) :: rules, callerRegisters => do
      let value ← evaluateForValue expression working
      recoverRegisters evaluateForValue working rules
        (callerRegisters.set name value)

/-- `FindCallerRegs`, with the evaluator's `EvaluateForValue` over the memory;
the registers of the caller are of use only when it returns true. -/
def FrameInfo.findCallerRegs {V : Type} (info : FrameInfo)
    (evaluateForValue : Text → RegisterValues V → Option V)
    (registers : RegisterValues V) : Option (RegisterValues V) :=
  if info.cfaRule = [] ∨ info.raRule = [] then none
  else do
    let cfa ← evaluateForValue info.cfaRule registers
    let working := registers.set cfaName cfa
    let ra ← evaluateForValue info.raRule working
    let callerRegisters ← recoverRegisters evaluateForValue working
      info.registerRules fun _ => none
    some ((callerRegisters.set raName ra).set cfaName cfa)

end CallFrameInfo
end MiscCode
