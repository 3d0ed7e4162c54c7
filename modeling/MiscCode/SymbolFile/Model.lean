import MiscCode.CallFrameInfo.Lookup
import MiscCode.Support.Strto
import MiscCode.Support.WhileLoop
import Mathlib.Data.List.DropRight

/-!
# Reading symbol files

A symbol file has one record on each line.  `LoadMapFromMemory` splits the file
into lines with `strtok_r` and hands each line to the function for its kind of
record.  A line that cannot be read is an error; after too many errors the rest
of the file is not read.

The maps that hold the records are declared in headers that are not in the
repository.  They are modelled by what is stored in them, in order.  The record
for Windows is read by a function of such a header as well.
-/

namespace MiscCode
namespace SymbolFile

open CallFrameInfo Strto WhileLoop Words

/-- The characters in `kWhitespace`. -/
def isWhitespace (c : Char) : Bool := c ∈ [' ', '\r', '\n']

/-- The characters that end a line. -/
def isLineEnd (c : Char) : Bool := c ∈ ['\r', '\n']

/-! ## Fields -/

/-- The loop in `Tokenize`: the tokens, how many were not found, and what is
left of the line. -/
def tokenizeLoop (separators : Char → Bool) :
    (remaining : ℕ) → (token : Option Text) → (rest : Text) →
      List Text × ℕ × Text
  | 0, _, rest => ([], 0, rest)
  | remaining + 1, none, rest => ([], remaining + 1, rest)
  | remaining + 1, some token, rest =>
      if remaining = 0 then ([], 0, rest)
      else
        let tokens :=
          if 1 < remaining then
            match next separators rest with
            | some (token, rest) =>
                tokenizeLoop separators remaining (some token) rest
            | none => tokenizeLoop separators remaining none []
          else tokenizeLoop separators remaining (some token) rest
        (token :: tokens.1, tokens.2)

/-- `Tokenize`: whether there are as many tokens as wanted, and the tokens.  The
last one is what is left of the line. -/
def tokenize (line : Text) (separators : Char → Bool) (maxTokens : ℕ) :
    Bool × List Text :=
  let (token, rest) :=
    match next separators line with
    | some (token, rest) => (some token, rest)
    | none => (none, [])
  let (tokens, remaining, rest) := tokenizeLoop separators maxTokens token rest
  let tokens :=
    if remaining = 0 then
      match next isLineEnd rest with
      | some (token, _) => tokens ++ [token]
      | none => tokens
    else tokens
  (tokens.length = maxTokens, tokens)

/-- `IsValidAfterNumber`. -/
def isValidAfterNumber (afterNumber : Text) : Bool :=
  match afterNumber with
  | [] => true
  | c :: _ => isWhitespace c

/-- A field that is read by `strtoull`; the largest number is refused. -/
def unsigned? (token : Text) : Option UInt64 :=
  let number := strtoull 16 token
  if isValidAfterNumber number.2 && number.1 ≠ UInt64.ofNat (2 ^ 64 - 1) then
    some number.1
  else none

/-- A field that is read by `strtol`; the largest number is refused, and so is a
number below zero. -/
def natural? (base : ℕ) (token : Text) : Option ℤ :=
  let number := strtol base token
  if isValidAfterNumber number.2 && number.1 ≠ longMax && 0 ≤ number.1 then
    some number.1
  else none

/-! ## Records -/

/-- A `Line`. -/
structure Line where
  address : UInt64
  size : UInt64
  sourceFileId : ℤ
  line : ℤ
  deriving DecidableEq, Repr

/-- A `Function`, with the lines stored in it. -/
structure Function where
  name : Text
  address : UInt64
  size : UInt64
  parameterSize : ℤ
  lines : List Line
  deriving DecidableEq, Repr

/-- A `PublicSymbol`. -/
structure PublicSymbol where
  name : Text
  address : UInt64
  parameterSize : ℤ
  deriving DecidableEq, Repr

/-- `SymbolParseHelper::ParseFile`. -/
def parseFile (fileLine : Text) : Option (ℤ × Text) :=
  match tokenize (fileLine.drop 5) isWhitespace 2 with
  | (true, [index, filename]) => do
      let index ← natural? 10 index
      some (index, filename)
  | _ => none

/-- `ParseFunction`. -/
def parseFunction (functionLine : Text) : Option Function :=
  match tokenize (functionLine.drop 5) isWhitespace 4 with
  | (true, [address, size, stackParamSize, name]) => do
      let address ← unsigned? address
      let size ← unsigned? size
      let stackParamSize ← natural? 16 stackParamSize
      some
        { name := name
          address := address
          size := size
          parameterSize := stackParamSize
          lines := [] }
  | _ => none

/-- `ParseLine`. -/
def parseLine (lineLine : Text) : Option Line :=
  match tokenize lineLine isWhitespace 4 with
  | (true, [address, size, lineNumber, sourceFile]) => do
      let address ← unsigned? address
      let size ← unsigned? size
      let lineNumber ← natural? 10 lineNumber
      let sourceFile ← natural? 10 sourceFile
      some
        { address := address
          size := size
          sourceFileId := sourceFile
          line := lineNumber }
  | _ => none

/-- `SymbolParseHelper::ParsePublicSymbol`. -/
def parsePublicSymbol (publicLine : Text) : Option PublicSymbol :=
  match tokenize (publicLine.drop 7) isWhitespace 3 with
  | (true, [address, stackParamSize, name]) => do
      let address ← unsigned? address
      let stackParamSize ← natural? 16 stackParamSize
      some { name := name, address := address, parameterSize := stackParamSize }
  | _ => none

/-! ## `Module` -/

/-- A record about frames on Windows, with its key and its range. -/
structure WindowsRecord (ω : Type) where
  type : ℕ
  rva : UInt64
  codeSize : UInt64
  info : ω
  deriving DecidableEq, Repr

/-- The functions declared in headers: `ParseFromString`, which takes a copy of
the text, and what `Store` of `public_symbols_` answers. -/
structure Headers (ω : Type) where
  parseFromString : Text → Option (WindowsRecord ω)
  publicAccepts : List PublicSymbol → (address : UInt64) → Bool

/-- A `Module`: what was stored in its maps. -/
structure Module (ω : Type) where
  files : List (ℤ × Text)
  functions : List Function
  publicSymbols : List PublicSymbol
  windowsFrameInfo : List (WindowsRecord ω)
  cfiInitialRules : List InitialRules
  cfiDeltaRules : DeltaRules
  isCorrupt : Bool

/-- A new module. -/
def Module.fresh {ω : Type} : Module ω where
  files := []
  functions := []
  publicSymbols := []
  windowsFrameInfo := []
  cfiInitialRules := []
  cfiDeltaRules := ⟨[], .nil⟩
  isCorrupt := false

/-- `cfi_delta_rules_[address] = delta_rules`. -/
def setDelta (deltas : DeltaRules) (address : UInt64) (deltaRules : Text) :
    DeltaRules where
  entries := deltas.entries.filter (·.1 < address) ++
    (address, deltaRules) :: deltas.entries.filter (address < ·.1)
  sorted := by
    have hbelow : ∀ entry ∈ deltas.entries.filter (·.1 < address),
        entry.1 < address := by
      intro entry hentry
      exact of_decide_eq_true (List.mem_filter.mp hentry).2
    have habove : ∀ entry ∈ deltas.entries.filter (address < ·.1),
        address < entry.1 := by
      intro entry hentry
      exact of_decide_eq_true (List.mem_filter.mp hentry).2
    have hsorted := List.pairwise_map.mp deltas.sorted
    rw [List.pairwise_map, List.pairwise_append]
    refine ⟨hsorted.filter _, List.pairwise_cons.mpr ⟨habove, hsorted.filter _⟩,
      fun entry hentry other hother => ?_⟩
    rcases List.mem_cons.mp hother with rfl | hother
    · exact hbelow entry hentry
    · exact UInt64.lt_trans (hbelow entry hentry) (habove other hother)

section Load

variable {ω : Type}

/-- `ParseCFIFrameInfo`. -/
def parseCFIFrameInfo (stackInfoLine : Text) (module : Module ω) :
    Bool × Module ω :=
  match next isWhitespace stackInfoLine with
  | none => (false, module)
  | some (initOrAddress, cursor) =>
      if initOrAddress = "INIT".toList then
        match next isWhitespace cursor with
        | none => (false, module)
        | some (addressField, cursor) =>
            match next isWhitespace cursor with
            | none => (false, module)
            | some (sizeField, cursor) =>
                match next isLineEnd cursor with
                | none => (false, module)
                | some (initialRules, _) =>
                    (true,
                      { module with
                        cfiInitialRules := module.cfiInitialRules ++
                          [{ rules := initialRules
                             base := (strtoull 16 addressField).1
                             size := (strtoull 16 sizeField).1 }] })
      else
        match next isLineEnd cursor with
        | none => (false, module)
        | some (deltaRules, _) =>
            (true,
              { module with
                cfiDeltaRules := setDelta module.cfiDeltaRules
                  (strtoull 16 initOrAddress).1 deltaRules })

/-- What `strtok_r` leaves of a text as a string: the separators in front of the
first token, and the token. -/
def cutAtToken (memory : Text) : Text :=
  memory.takeWhile isWhitespace ++
    (memory.dropWhile isWhitespace).takeWhile fun c => !isWhitespace c

/-- A line about frames behind its first word and the blanks. -/
def stackInfo (stackInfoLine : Text) : Text :=
  (stackInfoLine.drop 6).dropWhile (· = ' ')

/-- The memory behind the name of the platform, and whether it is the memory
behind the line. -/
def stackInfoMemory (stackInfoLine : Text) (behind : Option Text) :
    Option Text × Bool :=
  match (stackInfo stackInfoLine).dropWhile fun c => !isWhitespace c with
  | _ :: info => (some info, false)
  | [] => (behind, true)

/-- `ParseStackInfo`.  When the line ends with the name of the platform, the
memory behind the line is read in its place, and changed; it may lie outside of
the buffer. -/
def parseStackInfo (headers : Headers ω) (stackInfoLine : Text)
    (behind : Option Text) (module : Module ω) :
    Option (Bool × Module ω × Option Text) :=
  let platform := (stackInfo stackInfoLine).takeWhile fun c => !isWhitespace c
  let memory := stackInfoMemory stackInfoLine behind
  if platform = "WIN".toList then do
    let info ← memory.1
    match headers.parseFromString info with
    | none => some (false, module, none)
    | some record =>
        some (true,
          { module with
            windowsFrameInfo := module.windowsFrameInfo ++ [record] }, none)
  else if platform = "CFI".toList then do
    let info ← memory.1
    let (parsed, module) := parseCFIFrameInfo info module
    some (parsed, module, if memory.2 then some (cutAtToken info) else none)
  else some (false, module, none)

/-! ## `LoadMapFromMemory` -/

/-- The errors that are logged, by their messages. -/
inductive ParseError where
  | nullTerminator | parseFile | parseStackInfo | parseFunction
  | parsePublicSymbol | lineWithoutFunction | parseLine
  deriving DecidableEq, Repr

/-- The message of an error. -/
def ParseError.message : ParseError → String
  | nullTerminator =>
      "Null terminator is not expected in the middle of the symbol data"
  | parseFile => "ParseFile on buffer failed"
  | parseStackInfo => "ParseStackInfo failed"
  | parseFunction => "ParseFunction failed"
  | parsePublicSymbol => "ParsePublicSymbol failed"
  | lineWithoutFunction => "Found source line data without a function"
  | parseLine => "ParseLine failed"

/-- `kMaxErrorsPrinted`. -/
def maxErrorsPrinted : ℕ := 5

/-- `kMaxErrorsBeforeBailing`. -/
def maxErrorsBeforeBailing : ℕ := 100

/-- The state of the loop over the lines.  The function that `cur_func` points
to is kept apart from those in front of it. -/
structure Loading (ω : Type) where
  module : Module ω
  curFunc : Option Function
  errors : List (ParseError × ℕ)
  lineNumber : ℕ
  rest : Text

/-- `LogParseError`; the first errors are printed. -/
def Loading.logParseError (s : Loading ω) (error : ParseError) : Loading ω :=
  { s with errors := s.errors ++ [(error, s.lineNumber)] }

/-- What is printed about the errors. -/
def printedErrors (errors : List (ParseError × ℕ)) : List String :=
  (errors.take maxErrorsPrinted).map fun error =>
    if 0 < error.2 then s!"Line {error.2}: {error.1.message}"
    else error.1.message

/-- `cur_func` is given another value, and no longer points to the function. -/
def Loading.setCurFunc (s : Loading ω) (function : Option Function) :
    Loading ω :=
  { s with
    module :=
      { s.module with functions := s.module.functions ++ s.curFunc.toList }
    curFunc := function }

/-- A line of the file; `behind` is the memory behind it, as far as it is in the
buffer. -/
def loadLine (headers : Headers ω) (line : Text) (behind : Option Text)
    (s : Loading ω) : Option (Loading ω) :=
  let s := { s with lineNumber := s.lineNumber + 1 }
  if "FILE ".toList.isPrefixOf line then
    match parseFile line with
    | none => some (s.logParseError .parseFile)
    | some file =>
        some { s with
          module := { s.module with files := s.module.files ++ [file] } }
  else if "STACK ".toList.isPrefixOf line then do
    let (parsed, module, left) ← parseStackInfo headers line behind s.module
    let s := { s with module := module, rest := left.getD s.rest }
    some (if parsed then s else s.logParseError .parseStackInfo)
  else if "FUNC ".toList.isPrefixOf line then
    let s := s.setCurFunc (parseFunction line)
    some (if s.curFunc.isSome then s else s.logParseError .parseFunction)
  else if "PUBLIC ".toList.isPrefixOf line then
    let s := s.setCurFunc none
    match parsePublicSymbol line with
    | none => some (s.logParseError .parsePublicSymbol)
    | some symbol =>
        if symbol.address = 0 then some s
        else if headers.publicAccepts s.module.publicSymbols symbol.address then
          some { s with
            module := { s.module with
              publicSymbols := s.module.publicSymbols ++ [symbol] } }
        else some (s.logParseError .parsePublicSymbol)
  else if "MODULE ".toList.isPrefixOf line then some s
  else if "INFO ".toList.isPrefixOf line then some s
  else
    match s.curFunc with
    | none => some (s.logParseError .lineWithoutFunction)
    | some function =>
        match parseLine line with
        | none => some (s.logParseError .parseLine)
        | some line =>
            some { s with
              curFunc := some { function with
                lines := function.lines ++ [line] } }

/-- Whether a text ends with its first line, without a line end behind it. -/
def endsWithLine (rest : Text) : Bool :=
  ((rest.dropWhile isLineEnd).dropWhile fun c => !isLineEnd c).isEmpty

/-- A turn of the loop over the lines; there is no result when a read leaves the
buffer.  `padded` says that another NUL is behind the one at the end. -/
def loadTurn (headers : Headers ω) (padded : Bool) (s : Loading ω) :
    Turn (Loading ω) (Option (Loading ω)) :=
  match next isLineEnd s.rest with
  | none => .leave (some s)
  | some (line, rest) =>
      let behind :=
        if endsWithLine s.rest && !padded then none else some rest
      match loadLine headers line behind { s with rest := rest } with
      | none => .leave none
      | some s =>
          if maxErrorsBeforeBailing < s.errors.length then .leave (some s)
          else .again s

/-- The buffer without the NULs at its end; the last character is one. -/
def content (memoryBuffer : Text) : Text :=
  memoryBuffer.dropLast.rdropWhile (· = nul)

/-- The state in front of the loop. -/
def Loading.start (memoryBuffer : Text) : Loading ω where
  module := .fresh
  curFunc := none
  errors := if nul ∈ content memoryBuffer then [(.nullTerminator, 0)] else []
  lineNumber := 0
  rest := (content memoryBuffer).map fun c => if c = nul then '_' else c

/-- What is behind the loop: the module, and the errors. -/
def Loading.finish (s : Loading ω) : Module ω × List (ParseError × ℕ) :=
  ({ (s.setCurFunc none).module with isCorrupt := !s.errors.isEmpty }, s.errors)

/-- `LoadMapFromMemory` for a new module, under a budget. -/
def loadMapFromMemory (headers : Headers ω) (fuel : ℕ) (memoryBuffer : Text) :
    Except Unit (Option (Module ω × List (ParseError × ℕ))) :=
  if memoryBuffer = [] then .ok (some (.fresh, []))
  else do
    let padded : Bool := (content memoryBuffer).length + 2 ≤ memoryBuffer.length
    let loaded ← loop () (fun _ s => .ok (loadTurn headers padded s)) fuel
      (.start memoryBuffer)
    .ok (loaded.map Loading.finish)

end Load

end SymbolFile
end MiscCode
