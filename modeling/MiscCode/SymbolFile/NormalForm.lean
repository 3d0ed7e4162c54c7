import MiscCode.SymbolFile.Accepted

/-!
# Writing what was read

A module is written with one line for each of its records, every function in
front of its own lines.  What was read of any file is written and read again to
the same module, apart from the records for Windows, which are read by a
function that is not in the repository.
-/

namespace MiscCode
namespace SymbolFile

open CallFrameInfo Fuel WhileLoop Words

section NormalForm

variable {ω : Type}

/-! ## The records of a module -/

/-- A function in front of its lines. -/
def Function.records (function : Function) : List Record :=
  .function function :: function.lines.map .line

/-- The records of a module, those for Windows left out. -/
def Module.records (module : Module ω) : List Record :=
  module.files.map .file ++ module.publicSymbols.map .publicSymbol ++
    module.cfiInitialRules.map .initial ++
    module.cfiDeltaRules.entries.map .delta ++
    module.functions.flatMap Function.records

/-- A module without the records for Windows, as it is without errors. -/
def Module.plain (module : Module ω) : Module ω :=
  { module with windowsFrameInfo := [], isCorrupt := false }

variable {headers : Headers ω} {s : Loading ω}

/-! ## What the records add -/

/-- The module behind the loop. -/
def Loading.result (s : Loading ω) : Module ω := (s.setCurFunc none).module

theorem foldl_store_errors (s : Loading ω) (records : List Record) :
    (records.foldl Loading.store s).errors = s.errors := by
  induction records generalizing s with
  | nil => rfl
  | cons record records ih => rw [List.foldl_cons, ih, Loading.store_errors]

theorem result_files (s : Loading ω) (files : List (ℤ × Text)) :
    ((files.map Record.file).foldl Loading.store s).result =
      { s.result with files := s.result.files ++ files } := by
  induction files generalizing s with
  | nil => simp
  | cons file files ih =>
      have hstore : (s.store (.file file)).result =
          { s.result with files := s.result.files ++ [file] } := rfl
      simp [ih, hstore]

theorem result_publicSymbols (s : Loading ω) (symbols : List PublicSymbol) :
    ((symbols.map Record.publicSymbol).foldl Loading.store s).result =
      { s.result with
        publicSymbols := s.result.publicSymbols ++ symbols } := by
  induction symbols generalizing s with
  | nil => simp
  | cons symbol symbols ih =>
      have hstore : (s.store (.publicSymbol symbol)).result =
          { s.result with
            publicSymbols := s.result.publicSymbols ++ [symbol] } := by
        simp [Loading.store, Loading.result, Loading.setCurFunc]
      simp [ih, hstore]

theorem result_initialRules (s : Loading ω) (rules : List InitialRules) :
    ((rules.map Record.initial).foldl Loading.store s).result =
      { s.result with
        cfiInitialRules := s.result.cfiInitialRules ++ rules } := by
  induction rules generalizing s with
  | nil => simp
  | cons rule rules ih =>
      have hstore : (s.store (.initial rule)).result =
          { s.result with
            cfiInitialRules := s.result.cfiInitialRules ++ [rule] } := rfl
      simp [ih, hstore]

/-- A rule set at an address above all others goes to the end. -/
theorem setDelta_eq {deltas deltas' : DeltaRules} {delta : UInt64 × Text}
    (h : deltas'.entries = deltas.entries ++ [delta]) :
    setDelta deltas delta.1 delta.2 = deltas' := by
  obtain ⟨entries, sorted⟩ := deltas
  obtain ⟨entries', sorted'⟩ := deltas'
  obtain rfl : entries' = entries ++ [delta] := h
  have hbelow : ∀ entry ∈ entries, entry.1 < delta.1 := by
    rw [List.map_append, List.pairwise_append] at sorted'
    exact fun entry hentry => sorted'.2.2 entry.1 (List.mem_map_of_mem hentry)
      delta.1 (by simp)
  have hkeep : entries.filter (fun entry => entry.1 < delta.1) = entries :=
    List.filter_eq_self.mpr fun entry hentry => by simpa using hbelow entry hentry
  have hnone : entries.filter (fun entry => delta.1 < entry.1) = [] :=
    List.filter_eq_nil_iff.mpr fun entry hentry => by
      simpa using UInt64.le_of_lt (hbelow entry hentry)
  simp only [setDelta, hkeep, hnone]

theorem deltaRules_eq {deltas deltas' : DeltaRules}
    (h : deltas.entries = deltas'.entries) : deltas = deltas' := by
  cases deltas
  cases deltas'
  cases h
  rfl

theorem result_deltaRules (s : Loading ω) (deltas : DeltaRules)
    {entries : List (UInt64 × Text)}
    (h : deltas.entries = s.result.cfiDeltaRules.entries ++ entries) :
    ((entries.map Record.delta).foldl Loading.store s).result =
      { s.result with cfiDeltaRules := deltas } := by
  induction entries generalizing s with
  | nil =>
      rw [deltaRules_eq (h.trans (List.append_nil _))]
      rfl
  | cons delta entries ih =>
      rw [← List.singleton_append, ← List.append_assoc] at h
      have hsorted := deltas.sorted
      rw [h, List.map_append] at hsorted
      have hset : setDelta s.result.cfiDeltaRules delta.1 delta.2 =
          ⟨s.result.cfiDeltaRules.entries ++ [delta],
            (List.pairwise_append.mp hsorted).1⟩ :=
        setDelta_eq rfl
      have hstore : (s.store (.delta delta)).result =
          { s.result with
            cfiDeltaRules := setDelta s.result.cfiDeltaRules delta.1 delta.2 } :=
        rfl
      rw [List.map_cons, List.foldl_cons, ih, hstore]
      rw [hstore, hset]
      exact h

/-- The lines behind a function. -/
theorem result_lines {function : Function} (hfunction : s.curFunc = some function)
    (lines : List Line) :
    ((lines.map Record.line).foldl Loading.store s).result =
      { s.module with
        functions := s.module.functions ++
          [{ function with lines := function.lines ++ lines }] } := by
  induction lines generalizing s function with
  | nil => simp [Loading.result, Loading.setCurFunc, hfunction]
  | cons line lines ih =>
      have hstore : (s.store (.line line)).curFunc =
          some { function with lines := function.lines ++ [line] } := by
        simp [Loading.store, hfunction]
      rw [List.map_cons, List.foldl_cons, ih hstore]
      simp [Loading.store]

theorem result_function (s : Loading ω) (function : Function) :
    (function.records.foldl Loading.store s).result =
      { s.result with functions := s.result.functions ++ [function] } := by
  have hcurFunc : (s.store (.function function)).curFunc =
      some { function with lines := [] } := rfl
  rw [Function.records, List.foldl_cons, result_lines hcurFunc]
  simp [Loading.store, Loading.result, Loading.setCurFunc]

theorem result_functions (s : Loading ω) (functions : List Function) :
    ((functions.flatMap Function.records).foldl Loading.store s).result =
      { s.result with functions := s.result.functions ++ functions } := by
  induction functions generalizing s with
  | nil => simp
  | cons function functions ih =>
      simp [List.flatMap_cons, List.foldl_append, ih, result_function]

/-- The records of a module are what it is made of. -/
theorem finish_records (module : Module ω) :
    (module.records.foldl Loading.store (.fresh [])).finish =
      (module.plain, []) := by
  have hresult : (module.records.foldl Loading.store (.fresh [])).result =
      module.plain := by
    simp only [Module.records, List.foldl_append]
    rw [result_functions, result_deltaRules _ module.cfiDeltaRules,
      result_initialRules, result_publicSymbols, result_files]
    · rfl
    · rw [result_initialRules, result_publicSymbols, result_files]
      rfl
  have herrors : (module.records.foldl Loading.store
      (.fresh [] : Loading ω)).errors = [] := foldl_store_errors _ _
  rw [Loading.finish, herrors, ← Loading.result, hresult]
  rfl

/-! ## The records can be stored -/

theorem fitInTurn_append {records others : List Record} :
    FitInTurn headers s (records ++ others) ↔ FitInTurn headers s records ∧
      FitInTurn headers (records.foldl Loading.store s) others := by
  induction records generalizing s with
  | nil => simp [FitInTurn]
  | cons record records ih =>
      rw [List.cons_append, FitInTurn, FitInTurn, ih, List.foldl_cons, and_assoc]

/-- Records that can be stored whatever is in front of them. -/
theorem fitInTurn_of_forall {records : List Record}
    (h : ∀ record ∈ records, ∀ s : Loading ω, record.Fits headers s) :
    FitInTurn headers s records := by
  induction records generalizing s with
  | nil => trivial
  | cons record records ih =>
      obtain ⟨hrecord, hrecords⟩ := List.forall_mem_cons.mp h
      exact ⟨hrecord s, ih hrecords⟩

theorem fitInTurn_publicSymbols {symbols : List PublicSymbol}
    (hsymbols : ∀ symbol ∈ symbols, symbol.WellFormed ∧ symbol.address ≠ 0)
    (haccepts : ∀ before symbol, before ++ [symbol] <+: symbols →
      headers.publicAccepts (s.module.publicSymbols ++ before)
        symbol.address = true) :
    FitInTurn headers s (symbols.map .publicSymbol) := by
  induction symbols generalizing s with
  | nil => trivial
  | cons symbol symbols ih =>
      obtain ⟨⟨hsymbol, hne⟩, hsymbols⟩ := List.forall_mem_cons.mp hsymbols
      have hfirst := haccepts [] symbol (by simp)
      rw [List.append_nil] at hfirst
      refine ⟨⟨hsymbol, hne, hfirst⟩, ih hsymbols fun before next hnext => ?_⟩
      have hlater := haccepts (symbol :: before) next (by simpa using hnext)
      simpa [Loading.store, Loading.setCurFunc] using hlater

theorem fitInTurn_lines (hfunction : s.curFunc.isSome = true)
    {lines : List Line} (hlines : ∀ line ∈ lines, line.WellFormed) :
    FitInTurn headers s (lines.map .line) := by
  induction lines generalizing s with
  | nil => trivial
  | cons line lines ih =>
      obtain ⟨hline, hlines⟩ := List.forall_mem_cons.mp hlines
      exact ⟨⟨hline, hfunction⟩,
        ih (by simpa [Loading.store] using hfunction) hlines⟩

theorem fitInTurn_functions {functions : List Function}
    (h : ∀ function ∈ functions, function.WellFormed) :
    FitInTurn headers s (functions.flatMap Function.records) := by
  induction functions generalizing s with
  | nil => trivial
  | cons function functions ih =>
      obtain ⟨hfunction, hfunctions⟩ := List.forall_mem_cons.mp h
      rw [List.flatMap_cons, fitInTurn_append]
      exact ⟨⟨hfunction, fitInTurn_lines rfl hfunction.lines⟩, ih hfunctions⟩

theorem Module.WellFormed.fitInTurn {module : Module ω}
    (h : module.WellFormed headers) :
    FitInTurn headers (.fresh []) module.records := by
  have hpublic : ((module.files.map Record.file).foldl Loading.store
      (.fresh [])).module.publicSymbols = ([] : List PublicSymbol) :=
    congrArg Module.publicSymbols (result_files (ω := ω) (.fresh []) module.files)
  simp only [Module.records, fitInTurn_append]
  refine ⟨⟨⟨⟨?_, fitInTurn_publicSymbols h.publicSymbols ?_⟩, ?_⟩, ?_⟩,
    fitInTurn_functions h.functions⟩
  · exact fitInTurn_of_forall (List.forall_mem_map.mpr fun file hfile _ =>
      h.files file hfile)
  · rw [hpublic]
    simpa using h.accepted
  · exact fitInTurn_of_forall (List.forall_mem_map.mpr fun rules hrules _ =>
      h.initialRules rules hrules)
  · exact fitInTurn_of_forall (List.forall_mem_map.mpr fun delta hdelta _ =>
      h.deltaRules delta hdelta)

/-! ## Reading again -/

/-- A module that could have been read is written and read back. -/
theorem load_records (headers : Headers ω) {module : Module ω}
    (h : module.WellFormed headers) :
    EndsIn () (fun fuel => loadMapFromMemory headers fuel
        (write module.records ++ [nul]))
      (.ok (some (module.plain, []))) := by
  have hwrite := load_write headers h.fitInTurn
  rwa [finish_records] at hwrite

theorem steady_load (headers : Headers ω) (memoryBuffer : Text) :
    Steady () fun fuel => loadMapFromMemory headers fuel memoryBuffer := by
  simp only [loadMapFromMemory]
  split
  · exact fun _ => steadyAt_const _ _
  · exact (steady_loop (steady_const _) _).bind fun _ _ => steadyAt_const _ _

/-- What was read of any buffer, errors or not, is written and read again
without one. -/
theorem load_normal (headers : Headers ω) {memoryBuffer : Text}
    {module : Module ω} {errors : List (ParseError × ℕ)}
    (h : EndsIn () (fun fuel => loadMapFromMemory headers fuel memoryBuffer)
      (.ok (some (module, errors)))) :
    EndsIn () (fun fuel => loadMapFromMemory headers fuel
        (write module.records ++ [nul]))
      (.ok (some (module.plain, []))) := by
  obtain ⟨r, hr, hloaded, -⟩ := load_within headers memoryBuffer
  have hsame := (steady_load headers memoryBuffer).unique (.of_ok hr) h
  obtain rfl := Except.ok.inj hsame
  exact load_records headers (hloaded _ rfl).1

end NormalForm

/-- A module whose lines are out of order, and one of them cannot be read. -/
def sampleModule : Module Unit :=
  { Module.fresh with
    functions := [⟨"f".toList, 16, 4, 0, [⟨16, 2, 1, 7⟩]⟩]
    cfiDeltaRules := ⟨[(16, "a: b".toList), (18, "a: c".toList)], by decide⟩
    isCorrupt := true }

theorem load_normal_sample :
    EndsIn () (fun fuel => loadMapFromMemory sampleHeaders fuel
        (write sampleModule.records ++ [nul]))
      (.ok (some (sampleModule.plain, []))) := by
  have hload : EndsIn () (fun fuel => loadMapFromMemory sampleHeaders fuel
        ("STACK CFI 12 a: c\r\nFUNC 10 4 0 f\n\n10 2 7 1\nSTACK CFI 10 a: b\n" ++
          "12 lost\n\x00").toList)
      (.ok (some (sampleModule, [(.parseLine, 5)]))) :=
    .of_ok (n := 6) rfl
  exact load_normal sampleHeaders hload

end SymbolFile
end MiscCode
