import MiscCode.SymbolFile.Fields

/-!
# Writing records

Every record that a line of a symbol file can hold is written on a line, which
the function for its kind reads back.
-/

namespace MiscCode
namespace SymbolFile

open CallFrameInfo Strto Words

/-! ## Records as they are read -/

/-- A text that stands at the end of a line: it is not empty, and no line end and
no NUL is in it. -/
structure EndsLine (last : Text) : Prop where
  isWord : IsWord isLineEnd last
  nul_notMem : nul ∉ last

/-- A file of `files_`. -/
def WellFormedFile (file : ℤ × Text) : Prop :=
  Natural file.1 ∧ EndsLine file.2

/-- A line of a function. -/
structure Line.WellFormed (line : Line) : Prop where
  address : Unsigned line.address
  size : Unsigned line.size
  sourceFileId : Natural line.sourceFileId
  line : Natural line.line

/-- A function with its lines. -/
structure Function.WellFormed (function : Function) : Prop where
  name : EndsLine function.name
  address : Unsigned function.address
  size : Unsigned function.size
  parameterSize : Natural function.parameterSize
  lines : ∀ line ∈ function.lines, line.WellFormed

/-- A public symbol. -/
structure PublicSymbol.WellFormed (symbol : PublicSymbol) : Prop where
  name : EndsLine symbol.name
  address : Unsigned symbol.address
  parameterSize : Natural symbol.parameterSize

/-! ## Lines -/

/-- The line of a file. -/
def fileLine (file : ℤ × Text) : Text :=
  "FILE ".toList ++ writeFields [writeNatural 10 file.1] file.2

/-- The line of a function, without its own lines. -/
def functionLine (function : Function) : Text :=
  "FUNC ".toList ++ writeFields
    [writeUnsigned function.address, writeUnsigned function.size,
      writeNatural 16 function.parameterSize] function.name

/-- The line of a source line. -/
def lineLine (line : Line) : Text :=
  writeFields
    [writeUnsigned line.address, writeUnsigned line.size,
      writeNatural 10 line.line] (writeNatural 10 line.sourceFileId)

/-- The line of a public symbol. -/
def publicLine (symbol : PublicSymbol) : Text :=
  "PUBLIC ".toList ++ writeFields
    [writeUnsigned symbol.address, writeNatural 16 symbol.parameterSize]
      symbol.name

/-- The line of an initial rule set. -/
def initialLine (rules : InitialRules) : Text :=
  "STACK CFI INIT ".toList ++ writeFields
    [writeUnsigned rules.base, writeUnsigned rules.size] rules.rules

/-- The line of a later rule set. -/
def deltaLine (delta : UInt64 × Text) : Text :=
  "STACK CFI ".toList ++ writeFields [writeUnsigned delta.1] delta.2

/-! ## Reading lines back -/

theorem parseFile_fileLine {file : ℤ × Text} (h : WellFormedFile file) :
    parseFile (fileLine file) = some file := by
  have hdrop : (fileLine file).drop 5 =
      writeFields [writeNatural 10 file.1] file.2 := rfl
  have hfields := tokenize_writeFields (writeNatural 10 file.1) []
    (by simp [isWord_decimal]) h.2.isWord
  rw [List.length_nil] at hfields
  rw [parseFile, hdrop, hfields]
  simp [natural?_decimal h.1]

theorem parseFunction_functionLine {function : Function}
    (h : function.WellFormed) :
    parseFunction (functionLine function) =
      some { function with lines := [] } := by
  have hdrop : (functionLine function).drop 5 = writeFields
      [writeUnsigned function.address, writeUnsigned function.size,
        writeNatural 16 function.parameterSize] function.name := rfl
  have hfields := tokenize_writeFields (writeUnsigned function.address)
    [writeUnsigned function.size, writeNatural 16 function.parameterSize]
    (by simp [isWord_writeUnsigned, isWord_hexadecimal]) h.name.isWord
  simp only [List.length_cons, List.length_nil] at hfields
  rw [parseFunction, hdrop, hfields]
  simp [unsigned?_writeUnsigned h.address, unsigned?_writeUnsigned h.size,
    natural?_hexadecimal h.parameterSize]

theorem parseLine_lineLine {line : Line} (h : line.WellFormed) :
    parseLine (lineLine line) = some line := by
  have hfields := tokenize_writeFields (writeUnsigned line.address)
    [writeUnsigned line.size, writeNatural 10 line.line]
    (by simp [isWord_writeUnsigned, isWord_decimal])
    (isWord_isLineEnd (isWord_decimal line.sourceFileId))
  simp only [List.length_cons, List.length_nil] at hfields
  rw [parseLine, lineLine, hfields]
  simp [unsigned?_writeUnsigned h.address, unsigned?_writeUnsigned h.size,
    natural?_decimal h.line, natural?_decimal h.sourceFileId]

theorem parsePublicSymbol_publicLine {symbol : PublicSymbol}
    (h : symbol.WellFormed) :
    parsePublicSymbol (publicLine symbol) = some symbol := by
  have hdrop : (publicLine symbol).drop 7 = writeFields
      [writeUnsigned symbol.address, writeNatural 16 symbol.parameterSize]
        symbol.name := rfl
  have hfields := tokenize_writeFields (writeUnsigned symbol.address)
    [writeNatural 16 symbol.parameterSize]
    (by simp [isWord_writeUnsigned, isWord_hexadecimal]) h.name.isWord
  simp only [List.length_cons, List.length_nil] at hfields
  rw [parsePublicSymbol, hdrop, hfields]
  simp [unsigned?_writeUnsigned h.address, natural?_hexadecimal h.parameterSize]

/-! ## Call frame information -/

section CFI

variable {ω : Type} (module : Module ω)

theorem next_writeFields {field : Text} (hfield : IsWord isWhitespace field)
    (fields : List Text) (last : Text) :
    next isWhitespace (writeFields (field :: fields) last) =
      some (field, writeFields fields last) := by
  have hread := next_isWord_cons hfield (c := ' ') (by decide)
    (writeFields fields last)
  simpa [writeFields] using hread

theorem strtoull_writeUnsigned (w : UInt64) :
    (strtoull 16 (writeUnsigned w)).1 = w := by
  rw [writeUnsigned, strtoull_toDigits (by decide) le_rfl]

theorem isWord_init : IsWord isWhitespace "INIT".toList where
  ne_nil := by decide
  unbroken := by
    have hall : "INIT".toList.all (fun c => !isWhitespace c) = true := rfl
    simpa only [List.all_eq_true, Bool.not_eq_true'] using hall

/-- An initial rule set. -/
theorem parseCFIFrameInfo_initial {rules : InitialRules}
    (h : EndsLine rules.rules) :
    parseCFIFrameInfo ("INIT ".toList ++ writeFields
        [writeUnsigned rules.base, writeUnsigned rules.size] rules.rules)
      module =
      (true, { module with
        cfiInitialRules := module.cfiInitialRules ++ [rules] }) := by
  have hinit : next isWhitespace ("INIT ".toList ++ writeFields
      [writeUnsigned rules.base, writeUnsigned rules.size] rules.rules) =
      some ("INIT".toList, writeFields
        [writeUnsigned rules.base, writeUnsigned rules.size] rules.rules) :=
    next_isWord_cons (c := ' ') isWord_init (by decide) _
  have hbase := next_writeFields (isWord_writeUnsigned rules.base)
    [writeUnsigned rules.size] rules.rules
  have hsize := next_writeFields (isWord_writeUnsigned rules.size) []
    rules.rules
  have hrules : next isLineEnd (writeFields [] rules.rules) =
      some (rules.rules, []) := next_isWord h.isWord
  simp only [parseCFIFrameInfo, hinit, hbase, hsize, hrules, if_true,
    strtoull_writeUnsigned]

/-- A later rule set. -/
theorem parseCFIFrameInfo_delta {delta : UInt64 × Text} (h : EndsLine delta.2) :
    parseCFIFrameInfo (writeFields [writeUnsigned delta.1] delta.2) module =
      (true, { module with
        cfiDeltaRules := setDelta module.cfiDeltaRules delta.1 delta.2 }) := by
  have haddress := next_writeFields (isWord_writeUnsigned delta.1) [] delta.2
  have hrules : next isLineEnd (writeFields [] delta.2) = some (delta.2, []) :=
    next_isWord h.isWord
  have hne : writeUnsigned delta.1 ≠ "INIT".toList := by
    intro heq
    have hmem : 'I' ∈ writeUnsigned delta.1 := by rw [heq]; decide
    obtain ⟨d, hd, hdigit⟩ := mem_toDigits (by decide) hmem
    exact absurd hdigit.symm ((by decide : ∀ d < 16, Nat.digitChar d ≠ 'I') d hd)
  simp only [parseCFIFrameInfo, haddress, hrules, if_neg hne,
    strtoull_writeUnsigned]

/-- A line with call frame information. -/
theorem parseStackInfo_cfi (headers : Headers ω) (info : Text)
    (behind : Option Text) :
    parseStackInfo headers ("STACK CFI ".toList ++ info) behind module =
      some ((parseCFIFrameInfo info module).1, (parseCFIFrameInfo info module).2,
        none) := by
  have hplatform : (stackInfo ("STACK CFI ".toList ++ info)).takeWhile
      (fun c => !isWhitespace c) = "CFI".toList := rfl
  have hmemory : stackInfoMemory ("STACK CFI ".toList ++ info) behind =
      (some info, false) := rfl
  simp only [parseStackInfo, hplatform, hmemory,
    if_neg (show "CFI".toList ≠ "WIN".toList by decide), if_true]
  rfl

end CFI

/-! ## What the lines are made of -/

/-- Whether a text may stand in front of others on a line. -/
def fitsLine (front : Text) : Bool := front.all fun c => !isLineEnd c && c ≠ nul

theorem fitsLine_iff {front : Text} :
    fitsLine front = true ↔ ∀ c ∈ front, isLineEnd c = false ∧ c ≠ nul := by
  simp [fitsLine]

theorem EndsLine.append {front last : Text} (hfront : fitsLine front = true)
    (h : EndsLine last) : EndsLine (front ++ last) where
  isWord :=
    { ne_nil := List.append_ne_nil_of_right_ne_nil _ h.isWord.ne_nil
      unbroken := by
        intro c hc
        rcases List.mem_append.mp hc with hc | hc
        · exact (fitsLine_iff.mp hfront c hc).1
        · exact h.isWord.unbroken c hc }
  nul_notMem := by
    intro hc
    rcases List.mem_append.mp hc with hc | hc
    · exact (fitsLine_iff.mp hfront nul hc).2 rfl
    · exact h.nul_notMem hc

theorem endsLine_toDigits {base : ℕ} (hbase : 1 < base) (hsixteen : base ≤ 16)
    (n : ℕ) : EndsLine (Nat.toDigits base n) where
  isWord := isWord_isLineEnd (isWord_toDigits hbase hsixteen n)
  nul_notMem := by
    intro hmem
    obtain ⟨d, hd, hdigit⟩ := mem_toDigits hbase hmem
    exact absurd hdigit.symm
      ((by decide : ∀ d < 16, Nat.digitChar d ≠ nul) d (hd.trans_le hsixteen))

theorem endsLine_writeUnsigned (w : UInt64) : EndsLine (writeUnsigned w) :=
  endsLine_toDigits (by decide) le_rfl _

theorem endsLine_decimal (i : ℤ) : EndsLine (writeNatural 10 i) :=
  endsLine_toDigits (by decide) (by decide) _

theorem endsLine_hexadecimal (i : ℤ) : EndsLine (writeNatural 16 i) :=
  endsLine_toDigits (by decide) le_rfl _

theorem endsLine_writeFields {fields : List Text} {last : Text}
    (hfields : ∀ field ∈ fields, EndsLine field) (hlast : EndsLine last) :
    EndsLine (writeFields fields last) := by
  refine EndsLine.append (fitsLine_iff.mpr fun c hc => ?_) hlast
  obtain ⟨field, hfield, hc⟩ := List.mem_flatMap.mp hc
  rcases List.mem_append.mp hc with hc | hc
  · refine ⟨(hfields field hfield).isWord.unbroken c hc, ?_⟩
    rintro rfl
    exact (hfields field hfield).nul_notMem hc
  · obtain rfl := List.mem_singleton.mp hc
    exact ⟨by decide, by decide⟩

/-! ## The lines of records -/

theorem endsLine_fileLine {file : ℤ × Text} (h : WellFormedFile file) :
    EndsLine (fileLine file) :=
  .append rfl (endsLine_writeFields (by simp [endsLine_decimal]) h.2)

theorem endsLine_functionLine {function : Function} (h : function.WellFormed) :
    EndsLine (functionLine function) :=
  .append rfl (endsLine_writeFields
    (by simp [endsLine_writeUnsigned, endsLine_hexadecimal]) h.name)

theorem endsLine_lineLine (line : Line) : EndsLine (lineLine line) :=
  endsLine_writeFields (by simp [endsLine_writeUnsigned, endsLine_decimal])
    (endsLine_decimal _)

theorem endsLine_publicLine {symbol : PublicSymbol} (h : symbol.WellFormed) :
    EndsLine (publicLine symbol) :=
  .append rfl (endsLine_writeFields
    (by simp [endsLine_writeUnsigned, endsLine_hexadecimal]) h.name)

theorem endsLine_initialLine {rules : InitialRules} (h : EndsLine rules.rules) :
    EndsLine (initialLine rules) :=
  .append rfl (endsLine_writeFields (by simp [endsLine_writeUnsigned]) h)

theorem endsLine_deltaLine {delta : UInt64 × Text} (h : EndsLine delta.2) :
    EndsLine (deltaLine delta) :=
  .append rfl (endsLine_writeFields (by simp [endsLine_writeUnsigned]) h)

end SymbolFile
end MiscCode
