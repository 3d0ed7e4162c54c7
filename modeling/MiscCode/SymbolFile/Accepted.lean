import MiscCode.SymbolFile.Written

/-!
# What is read of any symbol file

Whatever a file holds, every record that is stored could have been written, no
more errors are counted than it takes to give up, and unless the file breaks off
in the middle of a line nothing outside of the buffer is read.
-/

namespace MiscCode
namespace SymbolFile

open CallFrameInfo Fuel WhileLoop Words

section Accepted

variable {ω : Type}

/-! ## What holds of the state -/

/-- A module whose records could have been written. -/
structure Module.WellFormed (headers : Headers ω) (module : Module ω) : Prop where
  files : ∀ file ∈ module.files, WellFormedFile file
  functions : ∀ function ∈ module.functions, function.WellFormed
  publicSymbols : ∀ symbol ∈ module.publicSymbols,
    symbol.WellFormed ∧ symbol.address ≠ 0
  accepted : ∀ before symbol, before ++ [symbol] <+: module.publicSymbols →
    headers.publicAccepts before symbol.address = true
  initialRules : ∀ rules ∈ module.cfiInitialRules, EndsLine rules.rules
  deltaRules : ∀ delta ∈ module.cfiDeltaRules.entries, EndsLine delta.2

/-- The state of the loop. -/
structure Loading.WellFormed (headers : Headers ω) (s : Loading ω) : Prop where
  module : s.module.WellFormed headers
  curFunc : ∀ function ∈ s.curFunc, function.WellFormed

variable {headers : Headers ω} {s : Loading ω} {line : Text}

theorem Module.wellFormed_fresh : (Module.fresh : Module ω).WellFormed headers where
  files := by simp [Module.fresh]
  functions := by simp [Module.fresh]
  publicSymbols := by simp [Module.fresh]
  accepted := by simp [Module.fresh]
  initialRules := by simp [Module.fresh]
  deltaRules := by simp [Module.fresh]

/-! ## What a line yields -/

/-- The last field of a line that was split. -/
theorem endsLine_of_tokenize (hline : nul ∉ line) {front n : ℕ}
    (ws : List Text) {last : Text}
    (h : tokenize (line.drop front) isWhitespace (n + 2) = (true, ws ++ [last])) :
    EndsLine last := by
  obtain ⟨hword, hmem⟩ := last_of_tokenize h
  exact ⟨hword, fun hnul => hline (List.mem_of_mem_drop (hmem nul hnul))⟩

theorem wellFormed_of_parseFile (hline : nul ∉ line) {file : ℤ × Text}
    (h : parseFile line = some file) : WellFormedFile file := by
  rw [parseFile] at h
  split at h
  · rename_i index filename htokens
    simp only [Option.bind_eq_bind, Option.bind_eq_some_iff, Option.some.injEq] at h
    obtain ⟨i, hi, rfl⟩ := h
    exact ⟨natural_of_natural? hi, endsLine_of_tokenize (n := 0) hline
      [index] htokens⟩
  · cases h

theorem wellFormed_of_parseFunction (hline : nul ∉ line) {function : Function}
    (h : parseFunction line = some function) : function.WellFormed := by
  rw [parseFunction] at h
  split at h
  · rename_i address size stackParamSize name htokens
    simp only [Option.bind_eq_bind, Option.bind_eq_some_iff, Option.some.injEq] at h
    obtain ⟨a, ha, b, hb, i, hi, rfl⟩ := h
    exact
      { name := endsLine_of_tokenize (n := 2) hline
          [address, size, stackParamSize] htokens
        address := unsigned_of_unsigned? ha
        size := unsigned_of_unsigned? hb
        parameterSize := natural_of_natural? hi
        lines := by simp }
  · cases h

theorem wellFormed_of_parseLine {sourceLine : Line}
    (h : parseLine line = some sourceLine) : sourceLine.WellFormed := by
  rw [parseLine] at h
  split at h
  · simp only [Option.bind_eq_bind, Option.bind_eq_some_iff, Option.some.injEq] at h
    obtain ⟨a, ha, b, hb, i, hi, j, hj, rfl⟩ := h
    exact
      { address := unsigned_of_unsigned? ha
        size := unsigned_of_unsigned? hb
        sourceFileId := natural_of_natural? hj
        line := natural_of_natural? hi }
  · cases h

theorem wellFormed_of_parsePublicSymbol (hline : nul ∉ line)
    {symbol : PublicSymbol} (h : parsePublicSymbol line = some symbol) :
    symbol.WellFormed := by
  rw [parsePublicSymbol] at h
  split at h
  · rename_i address stackParamSize name htokens
    simp only [Option.bind_eq_bind, Option.bind_eq_some_iff, Option.some.injEq] at h
    obtain ⟨a, ha, i, hi, rfl⟩ := h
    exact
      { name := endsLine_of_tokenize (n := 1) hline
          [address, stackParamSize] htokens
        address := unsigned_of_unsigned? ha
        parameterSize := natural_of_natural? hi }
  · cases h

/-- The text at the end of a line with call frame information. -/
theorem endsLine_of_next {info last left : Text} (hinfo : nul ∉ info)
    (h : next isLineEnd info = some (last, left)) : EndsLine last :=
  ⟨(next_cases h).1, fun hnul => hinfo (mem_of_next h (.inl hnul))⟩

theorem setDelta_entries {deltas : DeltaRules} {address : UInt64}
    {deltaRules : Text} {delta : UInt64 × Text}
    (h : delta ∈ (setDelta deltas address deltaRules).entries) :
    delta = (address, deltaRules) ∨ delta ∈ deltas.entries := by
  simp only [setDelta, List.mem_append, List.mem_cons, List.mem_filter] at h
  rcases h with ⟨h, -⟩ | rfl | ⟨h, -⟩
  · exact .inr h
  · exact .inl rfl
  · exact .inr h

/-- What `ParseCFIFrameInfo` does: a rule set is stored or nothing is. -/
theorem parseCFIFrameInfo_cases {info : Text} (hinfo : nul ∉ info)
    (module : Module ω) :
    (parseCFIFrameInfo info module).2 = module ∨
      (∃ rules : InitialRules, EndsLine rules.rules ∧
        (parseCFIFrameInfo info module).2 = { module with
          cfiInitialRules := module.cfiInitialRules ++ [rules] }) ∨
      ∃ delta : UInt64 × Text, EndsLine delta.2 ∧
        (parseCFIFrameInfo info module).2 = { module with
          cfiDeltaRules := setDelta module.cfiDeltaRules delta.1 delta.2 } := by
  rw [parseCFIFrameInfo]
  split
  · exact .inl rfl
  · rename_i initOrAddress cursor hinit
    have hcursor : nul ∉ cursor := fun hnul => hinfo (mem_of_next hinit (.inr hnul))
    split
    · split
      · exact .inl rfl
      · rename_i addressField cursor' haddress
        split
        · exact .inl rfl
        · rename_i sizeField cursor'' hsize
          split
          · exact .inl rfl
          · rename_i initialRules left hrules
            refine .inr (.inl ⟨_, endsLine_of_next ?_ hrules, rfl⟩)
            exact fun hnul => hcursor
              (mem_of_next haddress (.inr (mem_of_next hsize (.inr hnul))))
    · split
      · exact .inl rfl
      · rename_i deltaRules left hrules
        exact .inr (.inr ⟨((Strto.strtoull 16 initOrAddress).1, deltaRules),
          endsLine_of_next hcursor hrules, rfl⟩)

theorem Module.WellFormed.parseCFIFrameInfo {module : Module ω}
    (h : module.WellFormed headers) {info : Text} (hinfo : nul ∉ info) :
    (parseCFIFrameInfo info module).2.WellFormed headers := by
  rcases parseCFIFrameInfo_cases hinfo module with hsame | ⟨rules, hrules, hsome⟩ |
    ⟨delta, hdelta, hsome⟩
  · rw [hsame]
    exact h
  · rw [hsome]
    refine { h with initialRules := fun rules' hmem => ?_ }
    rcases List.mem_append.mp hmem with hmem | hmem
    · exact h.initialRules rules' hmem
    · exact List.mem_singleton.mp hmem ▸ hrules
  · rw [hsome]
    refine { h with deltaRules := fun delta' hmem => ?_ }
    rcases setDelta_entries hmem with rfl | hmem
    · exact hdelta
    · exact h.deltaRules delta' hmem

/-- The memory behind the name of the platform is on the line, or it is the
memory behind the line. -/
theorem stackInfoMemory_cases (line : Text) (behind : Option Text) :
    (∃ info, stackInfoMemory line behind = (some info, false) ∧
      ∀ c ∈ info, c ∈ line) ∨ stackInfoMemory line behind = (behind, true) := by
  rw [stackInfoMemory]
  split
  · rename_i c info hdrop
    refine .inl ⟨info, rfl, fun d hd => ?_⟩
    have hmem : d ∈ (stackInfo line).dropWhile fun c => !isWhitespace c := by
      rw [hdrop]
      exact List.mem_cons_of_mem c hd
    exact List.mem_of_mem_drop
      ((List.dropWhile_sublist _).mem ((List.dropWhile_sublist _).mem hmem))
  · exact .inr rfl

/-- The memory is cut at a token only where the memory behind the line is
read. -/
theorem parseStackInfo_keeps {module module' : Module ω}
    (h : module.WellFormed headers) (hline : nul ∉ line) {behind : Option Text}
    (hbehind : ∀ rest ∈ behind, nul ∉ rest) {parsed : Bool} {left : Option Text}
    (hparse : parseStackInfo headers line behind module =
      some (parsed, module', left)) :
    module'.WellFormed headers ∧
      ∀ rest' ∈ left, ∃ rest ∈ behind, rest' = cutAtToken rest := by
  simp only [parseStackInfo] at hparse
  split at hparse
  · simp only [Option.bind_eq_bind, Option.bind_eq_some_iff] at hparse
    obtain ⟨info, -, hparse⟩ := hparse
    split at hparse
    · obtain ⟨-, rfl, rfl⟩ := by simpa using hparse
      exact ⟨h, by simp⟩
    · obtain ⟨-, rfl, rfl⟩ := by simpa using hparse
      exact ⟨{ h with }, by simp⟩
  · split at hparse
    · simp only [Option.bind_eq_bind, Option.bind_eq_some_iff, Option.some.injEq,
        Prod.mk.injEq] at hparse
      obtain ⟨info, hinfo, -, rfl, rfl⟩ := hparse
      rcases stackInfoMemory_cases line behind with ⟨info', hmemory, hmem⟩ | hmemory
      · rw [hmemory] at hinfo ⊢
        obtain rfl := Option.some.inj hinfo
        exact ⟨h.parseCFIFrameInfo fun hnul => hline (hmem nul hnul), by simp⟩
      · rw [hmemory] at hinfo ⊢
        refine ⟨h.parseCFIFrameInfo (hbehind info hinfo), ?_⟩
        rintro rest' hrest'
        obtain rfl : cutAtToken info = rest' := by simpa using hrest'
        exact ⟨info, hinfo, rfl⟩
    · obtain ⟨-, rfl, rfl⟩ := by simpa using hparse
      exact ⟨h, by simp⟩

theorem setCurFunc_wellFormed (h : s.WellFormed headers)
    (function : Option Function) (hfunction : ∀ f ∈ function, f.WellFormed) :
    (s.setCurFunc function).WellFormed headers where
  module := by
    refine { h.module with functions := fun f hf => ?_ }
    rcases List.mem_append.mp hf with hf | hf
    · exact h.module.functions f hf
    · exact h.curFunc f (Option.mem_toList.mp hf)
  curFunc := hfunction

/-- What a line does: the state stays well formed, at most one error is logged
with the number of the line, and what is left to read stays or is cut at a
token. -/
structure Loading.Advances (headers : Headers ω) (behind : Option Text)
    (s s' : Loading ω) : Prop where
  wellFormed : s'.WellFormed headers
  lineNumber : s'.lineNumber = s.lineNumber + 1
  errors : s'.errors = s.errors ∨
    ∃ error, s'.errors = s.errors ++ [(error, s'.lineNumber)]
  rest : s'.rest = s.rest ∨ ∃ rest ∈ behind, s'.rest = cutAtToken rest

theorem Loading.Advances.logParseError {behind : Option Text} {s' : Loading ω}
    (h : s.Advances headers behind s') (herrors : s'.errors = s.errors)
    (error : ParseError) : s.Advances headers behind (s'.logParseError error) where
  wellFormed := ⟨h.wellFormed.module, h.wellFormed.curFunc⟩
  lineNumber := h.lineNumber
  errors := .inr ⟨error, by simp [Loading.logParseError, herrors]⟩
  rest := h.rest

/-- A public symbol that is stored. -/
theorem Module.WellFormed.storePublic {module : Module ω}
    (h : module.WellFormed headers) {symbol : PublicSymbol}
    (hsymbol : symbol.WellFormed) (hne : symbol.address ≠ 0)
    (haccepts : headers.publicAccepts module.publicSymbols symbol.address = true) :
    ({ module with publicSymbols := module.publicSymbols ++ [symbol] } :
      Module ω).WellFormed headers := by
  refine { h with publicSymbols := fun other hother => ?_, accepted := ?_ }
  · rcases List.mem_append.mp hother with hother | hother
    · exact h.publicSymbols other hother
    · exact List.mem_singleton.mp hother ▸ ⟨hsymbol, hne⟩
  · intro before other hinitial
    rcases List.prefix_concat_iff.mp hinitial with heq | hinitial
    · obtain ⟨rfl, hother⟩ := List.append_inj' heq rfl
      exact List.singleton_inj.mp hother ▸ haccepts
    · exact h.accepted before other hinitial

/-- A line of the file. -/
theorem loadLine_advances (h : s.WellFormed headers) (hline : nul ∉ line)
    {behind : Option Text} (hbehind : ∀ rest ∈ behind, nul ∉ rest)
    {s' : Loading ω} (hload : loadLine headers line behind s = some s') :
    s.Advances headers behind s' := by
  have hnumbered : ({ s with lineNumber := s.lineNumber + 1 } :
      Loading ω).WellFormed headers := ⟨h.module, h.curFunc⟩
  have hsame : s.Advances headers behind { s with lineNumber := s.lineNumber + 1 } :=
    ⟨hnumbered, rfl, .inl rfl, .inl rfl⟩
  have hset (function : Option Function) (hf : ∀ f ∈ function, f.WellFormed) :
      s.Advances headers behind
        (({ s with lineNumber := s.lineNumber + 1 } : Loading ω).setCurFunc
          function) :=
    ⟨setCurFunc_wellFormed hnumbered function hf, rfl, .inl rfl, .inl rfl⟩
  simp only [loadLine] at hload
  split at hload
  · split at hload
    · obtain rfl := Option.some.inj hload
      exact hsame.logParseError rfl _
    · rename_i file hparse
      obtain rfl := Option.some.inj hload
      refine ⟨⟨?_, h.curFunc⟩, rfl, .inl rfl, .inl rfl⟩
      refine { h.module with files := fun other hother => ?_ }
      rcases List.mem_append.mp hother with hother | hother
      · exact h.module.files other hother
      · exact List.mem_singleton.mp hother ▸ wellFormed_of_parseFile hline hparse
  · split at hload
    · simp only [Option.bind_eq_bind, Option.bind_eq_some_iff] at hload
      obtain ⟨⟨parsed, module, left⟩, hparse, hload⟩ := hload
      obtain ⟨hmodule, hleft⟩ := parseStackInfo_keeps h.module hline hbehind hparse
      have hrest : left.getD s.rest = s.rest ∨
          ∃ rest ∈ behind, left.getD s.rest = cutAtToken rest := by
        cases left with
        | none => exact .inl rfl
        | some rest' => exact .inr (hleft rest' rfl)
      have hstored : s.Advances headers behind
          { s with
            lineNumber := s.lineNumber + 1
            module := module
            rest := left.getD s.rest } :=
        ⟨⟨hmodule, h.curFunc⟩, rfl, .inl rfl, hrest⟩
      obtain rfl := Option.some.inj hload
      split
      · exact hstored
      · exact hstored.logParseError rfl _
    · split at hload
      · have hfunction := hset (parseFunction line)
          fun function hfunction => wellFormed_of_parseFunction hline hfunction
        obtain rfl := Option.some.inj hload
        split
        · exact hfunction
        · exact hfunction.logParseError rfl _
      · split at hload
        · have hnone := hset none (by simp)
          split at hload
          · obtain rfl := Option.some.inj hload
            exact hnone.logParseError rfl _
          · rename_i symbol hparse
            split at hload
            · obtain rfl := Option.some.inj hload
              exact hnone
            · rename_i hne
              split at hload
              · rename_i haccepts
                obtain rfl := Option.some.inj hload
                refine ⟨⟨?_, hnone.wellFormed.curFunc⟩, rfl, .inl rfl, .inl rfl⟩
                exact hnone.wellFormed.module.storePublic
                  (wellFormed_of_parsePublicSymbol hline hparse) hne haccepts
              · obtain rfl := Option.some.inj hload
                exact hnone.logParseError rfl _
        · split at hload
          · obtain rfl := Option.some.inj hload
            exact hsame
          · split at hload
            · obtain rfl := Option.some.inj hload
              exact hsame
            · split at hload
              · obtain rfl := Option.some.inj hload
                exact hsame.logParseError rfl _
              · rename_i function hcurFunc
                split at hload
                · obtain rfl := Option.some.inj hload
                  exact hsame.logParseError rfl _
                · rename_i sourceLine hparse
                  obtain rfl := Option.some.inj hload
                  refine ⟨⟨h.module, ?_⟩, rfl, .inl rfl, .inl rfl⟩
                  have hfunction := h.curFunc function hcurFunc
                  rintro f hf
                  obtain rfl := Option.some.inj hf
                  refine { hfunction with lines := fun other hother => ?_ }
                  rcases List.mem_append.mp hother with hother | hother
                  · exact hfunction.lines other hother
                  · exact List.mem_singleton.mp hother ▸
                      wellFormed_of_parseLine hparse

/-! ## Reads outside of the buffer -/

/-- A text that no line leads out of: it ends with a line end, or white space is
in front of everything else in it. -/
def Closed (rest : Text) : Prop :=
  (∀ c ∈ rest.getLast?, isLineEnd c = true) ∨
    rest.Pairwise fun c d => isWhitespace d = true → isWhitespace c = true

theorem closed_cutAtToken (memory : Text) : Closed (cutAtToken memory) := by
  refine .inr (List.pairwise_append.mpr ⟨?_, ?_, ?_⟩)
  · exact List.pairwise_of_forall_mem_list fun c hc _ _ _ =>
      List.mem_takeWhile_imp hc
  · refine List.pairwise_of_forall_mem_list fun c _ d hd hspace => ?_
    have hnot := List.mem_takeWhile_imp hd
    simp [hspace] at hnot
  · exact fun c hc _ _ _ => List.mem_takeWhile_imp hc

/-- The end of the text is found behind its first line. -/
theorem endsWithLine_eq_false {gap line : Text} (hgap : ∀ c ∈ gap, isLineEnd c)
    (hline : IsWord isLineEnd line) {c : Char} (hc : isLineEnd c = true)
    (rest : Text) : endsWithLine (gap ++ (line ++ c :: rest)) = false := by
  obtain ⟨d, ds, rfl⟩ := List.exists_cons_of_ne_nil hline.ne_nil
  have hd : isLineEnd d = false := hline.unbroken d List.mem_cons_self
  have hskip : (gap ++ (d :: ds ++ c :: rest)).dropWhile isLineEnd =
      d :: ds ++ c :: rest := by
    rw [List.dropWhile_append_of_pos hgap, List.cons_append,
      List.dropWhile_cons_of_neg (by simp [hd])]
  have hbehind : (d :: ds ++ c :: rest).dropWhile (fun c => !isLineEnd c) =
      c :: rest := by
    rw [List.dropWhile_append_of_pos fun x hx => by simp [hline.unbroken x hx],
      List.dropWhile_cons_of_neg (by simp [hc])]
  rw [endsWithLine, hskip, hbehind]
  rfl

/-- Behind a line of a closed text the text is closed, and the line at its end
has no word in front of a blank. -/
theorem Closed.next {text rest : Text} (h : Closed text)
    (hnext : Words.next isLineEnd text = some (line, rest)) :
    Closed rest ∧
      (endsWithLine text = true → "STACK ".toList.isPrefixOf line = false) := by
  obtain ⟨hline, gap, hgap, ⟨rfl, rfl⟩ | ⟨c, hc, rfl⟩⟩ := next_cases hnext
  · refine ⟨.inl (by simp), fun _ => ?_⟩
    rcases h with hlast | hpairwise
    · have hend := hlast (line.getLast hline.ne_nil)
        (by simp [List.getLast?_append,
          List.getLast?_eq_getLast_of_ne_nil hline.ne_nil])
      rw [hline.unbroken _ (List.getLast_mem hline.ne_nil)] at hend
      cases hend
    · rw [Bool.eq_false_iff]
      intro hstack
      obtain ⟨more, rfl⟩ := List.isPrefixOf_iff_prefix.mp hstack
      have hwords := hpairwise.sublist (List.sublist_append_right gap _)
      exact absurd ((List.pairwise_append.mp hwords).1) (by decide)
  · refine ⟨?_, fun hends => ?_⟩
    · rcases h with hlast | hpairwise
      · refine .inl fun d hd => hlast d ?_
        cases rest with
        | nil => cases hd
        | cons e es => simpa [List.getLast?_append] using hd
      · refine .inr (hpairwise.sublist ?_)
        exact (List.sublist_append_right (line ++ [c]) rest).trans
          (by simp)
    · rw [endsWithLine_eq_false hgap hline hc rest] at hends
      cases hends

theorem parseStackInfo_isSome (headers : Headers ω) (line rest : Text)
    (module : Module ω) :
    (parseStackInfo headers line (some rest) module).isSome = true := by
  have hmemory : ∃ info outside,
      stackInfoMemory line (some rest) = (some info, outside) := by
    rcases stackInfoMemory_cases line (some rest) with ⟨info, hinfo, -⟩ | hinfo
    · exact ⟨info, false, hinfo⟩
    · exact ⟨rest, true, hinfo⟩
  obtain ⟨info, outside, hmemory⟩ := hmemory
  simp only [parseStackInfo, hmemory, Option.bind_eq_bind, Option.bind_some]
  split
  · split
    · rfl
    · rfl
  · split
    · rfl
    · rfl

/-- Only a line about frames leads out of the buffer. -/
theorem loadLine_isSome (headers : Headers ω) {behind : Option Text}
    (h : behind.isSome = true ∨ "STACK ".toList.isPrefixOf line = false)
    (s : Loading ω) : (loadLine headers line behind s).isSome = true := by
  simp only [loadLine]
  split
  · split
    · rfl
    · rfl
  · split
    · rename_i hstack
      rcases h with hbehind | hnot
      · obtain ⟨rest, rfl⟩ := Option.isSome_iff_exists.mp hbehind
        obtain ⟨⟨parsed, module, left⟩, hparse⟩ := Option.isSome_iff_exists.mp
          (parseStackInfo_isSome headers line rest s.module)
        simp [hparse]
      · rw [hnot] at hstack
        cases hstack
    · repeat' split
      all_goals rfl

/-! ## The whole run -/

/-- What holds of the state whenever lines have been read: at most one error has
been logged for each of them, and all in turn. -/
structure Loading.Read (headers : Headers ω) (s : Loading ω) : Prop where
  wellFormed : s.WellFormed headers
  numbered : s.errors.Pairwise fun error later => error.2 < later.2
  numbered_le : ∀ error ∈ s.errors, error.2 ≤ s.lineNumber

/-- What holds in front of a turn; the text that is left is the rank. -/
structure Loading.Reads (headers : Headers ω) (padded : Bool) (safe : Prop)
    (rank : ℕ) (s : Loading ω) : Prop where
  read : s.Read headers
  errors_le : s.errors.length ≤ maxErrorsBeforeBailing
  rank_eq : s.rest.length = rank
  nul_notMem : nul ∉ s.rest
  closed : safe → padded = true ∨ Closed s.rest

/-- What holds behind the loop. -/
def Loaded (headers : Headers ω) (safe : Prop) (r : Option (Loading ω)) : Prop :=
  (∀ s ∈ r, s.Read headers ∧ s.errors.length ≤ maxErrorsBeforeBailing + 1) ∧
    (safe → r.isSome = true)

theorem Loading.Advances.read {behind : Option Text} {s' : Loading ω}
    (h : s.Advances headers behind s') (hread : s.Read headers) :
    s'.Read headers ∧ s'.errors.length ≤ s.errors.length + 1 := by
  have hle : s.lineNumber < s'.lineNumber := by rw [h.lineNumber]; omega
  rcases h.errors with hsame | ⟨error, hlogged⟩
  · refine ⟨⟨h.wellFormed, hsame ▸ hread.numbered, ?_⟩, by rw [hsame]; omega⟩
    intro error herror
    exact (hread.numbered_le error (hsame ▸ herror)).trans hle.le
  · refine ⟨⟨h.wellFormed, ?_, ?_⟩, by simp [hlogged]⟩
    · rw [hlogged, List.pairwise_append]
      refine ⟨hread.numbered, List.pairwise_singleton _ _, ?_⟩
      intro earlier hearlier last hlast
      obtain rfl := List.mem_singleton.mp hlast
      exact (hread.numbered_le earlier hearlier).trans_lt hle
    · intro earlier hearlier
      rw [hlogged] at hearlier
      rcases List.mem_append.mp hearlier with hearlier | hearlier
      · exact (hread.numbered_le earlier hearlier).trans hle.le
      · obtain rfl := List.mem_singleton.mp hearlier
        exact le_rfl

theorem length_cutAtToken_le (memory : Text) :
    (cutAtToken memory).length ≤ memory.length := by
  have hsplit := congrArg List.length
    (List.takeWhile_append_dropWhile (p := isWhitespace) (l := memory))
  have hword := (List.takeWhile_prefix (fun c => !isWhitespace c)
    (l := memory.dropWhile isWhitespace)).length_le
  simp only [cutAtToken, List.length_append] at hsplit ⊢
  omega

theorem mem_of_mem_cutAtToken {memory : Text} {c : Char}
    (h : c ∈ cutAtToken memory) : c ∈ memory := by
  rcases List.mem_append.mp h with h | h
  · exact (List.takeWhile_sublist _).mem h
  · exact (List.dropWhile_sublist _).mem ((List.takeWhile_sublist _).mem h)

/-- Behind a line less text is left. -/
theorem Loading.Advances.reads {behind : Option Text} {s' : Loading ω}
    (h : s.Advances headers behind s') (hread : s'.Read headers)
    (herrors : s'.errors.length ≤ maxErrorsBeforeBailing)
    (hbehind : ∀ rest ∈ behind, rest = s.rest) (hnul : nul ∉ s.rest)
    {padded : Bool} {safe : Prop} (hclosed : safe → padded = true ∨ Closed s.rest)
    {rank : ℕ} (hrank : s.rest.length < rank) :
    ∃ rank' < rank, s'.Reads headers padded safe rank' := by
  rcases h.rest with hsame | ⟨memory, hmemory, hcut⟩
  · rw [← hsame] at hnul hclosed hrank
    exact ⟨_, hrank, hread, herrors, rfl, hnul, hclosed⟩
  · obtain rfl := hbehind memory hmemory
    have hlt := (length_cutAtToken_le s.rest).trans_lt hrank
    refine ⟨_, hlt, hread, herrors, by rw [hcut], ?_, fun _ => .inr ?_⟩
    · rw [hcut]
      exact fun hmem => hnul (mem_of_mem_cutAtToken hmem)
    · rw [hcut]
      exact closed_cutAtToken s.rest

/-- A turn keeps what holds in front of it, with less text left, or leaves the
loop. -/
theorem loadTurn_keeps {padded : Bool} {safe : Prop} {rank : ℕ}
    (h : s.Reads headers padded safe rank) :
    Keeps (Loading.Reads headers padded safe) (Loaded headers safe) rank
      (loadTurn headers padded s) := by
  rw [loadTurn]
  split
  · exact ⟨by simpa using ⟨h.read, h.errors_le.trans (Nat.le_succ _)⟩,
      fun _ => rfl⟩
  · rename_i line rest hnext
    set behind := if endsWithLine s.rest && !padded then none else some rest
      with hbehind
    have hrest : ∀ rest' ∈ behind, rest' = rest := by
      intro rest' hrest'
      rw [hbehind, Option.mem_def] at hrest'
      split at hrest'
      · cases hrest'
      · exact (Option.some.inj hrest').symm
    have hnul : nul ∉ rest := fun hmem =>
      h.nul_notMem (mem_of_next hnext (.inr hmem))
    have hline : nul ∉ line := fun hmem =>
      h.nul_notMem (mem_of_next hnext (.inl hmem))
    have hclosed : safe → (padded = true ∨ Closed rest) ∧
        (behind.isSome = true ∨ "STACK ".toList.isPrefixOf line = false) := by
      intro hsafe
      rcases h.closed hsafe with hpadded | hclosed
      · exact ⟨.inl hpadded, .inl (by simp [hbehind, hpadded])⟩
      · obtain ⟨hclosed, hends⟩ := hclosed.next hnext
        refine ⟨.inr hclosed, ?_⟩
        cases hend : endsWithLine s.rest with
        | false => exact .inl (by simp [hbehind, hend])
        | true => exact .inr (hends hend)
    have hread : ({ s with rest := rest } : Loading ω).Read headers :=
      ⟨⟨h.read.wellFormed.module, h.read.wellFormed.curFunc⟩, h.read.numbered,
        h.read.numbered_le⟩
    dsimp only
    split
    · rename_i hload
      refine ⟨by simp, fun hsafe => ?_⟩
      have hsome := loadLine_isSome headers (hclosed hsafe).2
        { s with rest := rest }
      rw [hload] at hsome
      cases hsome
    · rename_i s' hload
      have hadvances := loadLine_advances hread.wellFormed hline
        (fun rest' hrest' => hrest rest' hrest' ▸ hnul) hload
      obtain ⟨hread', hlength⟩ := hadvances.read hread
      split
      · refine ⟨?_, fun _ => rfl⟩
        rintro _ ⟨⟩
        exact ⟨hread', hlength.trans (Nat.add_le_add_right h.errors_le 1)⟩
      · rename_i hbail
        refine hadvances.reads hread' (not_lt.mp hbail) hrest hnul
          (fun hsafe => (hclosed hsafe).1) ?_
        rw [← h.rank_eq]
        exact length_of_next hnext

/-- Whether a buffer is padded, or its data does not break off in a line. -/
def Complete (memoryBuffer : Text) : Prop :=
  (content memoryBuffer).length + 2 ≤ memoryBuffer.length ∨
    ∀ c ∈ (content memoryBuffer).getLast?, isLineEnd c = true

theorem start_reads (memoryBuffer : Text) :
    (Loading.start memoryBuffer : Loading ω).Reads headers
      (decide ((content memoryBuffer).length + 2 ≤ memoryBuffer.length))
      (Complete memoryBuffer) (Loading.start (ω := ω) memoryBuffer).rest.length where
  read :=
    { wellFormed := ⟨Module.wellFormed_fresh, by simp [Loading.start]⟩
      numbered := by
        simp only [Loading.start]
        split
        · exact List.pairwise_singleton _ _
        · exact List.Pairwise.nil
      numbered_le := by
        simp only [Loading.start]
        split
        · simp
        · simp }
  errors_le := by
    simp only [Loading.start]
    split
    · decide
    · decide
  rank_eq := rfl
  nul_notMem := by
    simp only [Loading.start, List.mem_map, not_exists, not_and]
    intro c hc
    split
    · decide
    · rename_i hne
      exact hne
  closed := by
    rintro (hpadded | hlast)
    · exact .inl (decide_eq_true hpadded)
    · refine .inr (.inl fun c hc => ?_)
      simp only [Loading.start, List.getLast?_map, Option.mem_def,
        Option.map_eq_some_iff] at hc
      obtain ⟨d, hd, rfl⟩ := hc
      have hend := hlast d hd
      have hne : d ≠ nul := by
        rintro rfl
        exact absurd hend (by decide)
      rw [if_neg hne]
      exact hend

theorem finish_wellFormed (h : s.WellFormed headers) :
    s.finish.1.WellFormed headers :=
  { (setCurFunc_wellFormed h none (by simp)).module with }

theorem length_start_le (memoryBuffer : Text) :
    (Loading.start memoryBuffer : Loading ω).rest.length ≤
      memoryBuffer.length := by
  have hcontent : (content memoryBuffer).length ≤ memoryBuffer.dropLast.length :=
    (List.rdropWhile_prefix _ _).length_le
  rw [List.length_dropLast] at hcontent
  simp only [Loading.start, List.length_map]
  omega

/-- The length of a buffer is a budget that is large enough. -/
theorem load_within (headers : Headers ω) (memoryBuffer : Text) :
    ∃ r, loadMapFromMemory headers (memoryBuffer.length + 1) memoryBuffer =
        .ok r ∧
      (∀ loaded ∈ r, loaded.1.WellFormed headers ∧
        loaded.2.length ≤ maxErrorsBeforeBailing + 1 ∧
        (loaded.2.Pairwise fun error later => error.2 < later.2) ∧
        (loaded.1.isCorrupt = true ↔ loaded.2 ≠ [])) ∧
      (Complete memoryBuffer → r.isSome = true) := by
  by_cases hne : memoryBuffer = []
  · refine ⟨some (.fresh, []), by rw [loadMapFromMemory, if_pos hne], ?_,
      fun _ => rfl⟩
    rintro _ ⟨⟩
    exact ⟨Module.wellFormed_fresh, by simp, List.Pairwise.nil,
      by simp [Module.fresh]⟩
  · obtain ⟨r, hloop, hloaded, hcomplete⟩ := loop_within
      (Loading.Reads headers _ (Complete memoryBuffer))
      (fun rank s hs => ⟨_, rfl, loadTurn_keeps hs⟩)
      (start_reads memoryBuffer)
      (Nat.lt_succ_of_le (length_start_le memoryBuffer))
    refine ⟨r.map Loading.finish, ?_, ?_, by simpa using hcomplete⟩
    · rw [loadMapFromMemory, if_neg hne]
      exact bind_eq_ok.mpr ⟨r, hloop, rfl⟩
    · intro loaded hmem
      obtain ⟨s, hs, rfl⟩ := Option.map_eq_some_iff.mp hmem
      obtain ⟨hread, hlength⟩ := hloaded s hs
      exact ⟨finish_wellFormed hread.wellFormed, hlength, hread.numbered,
        by simp [Loading.finish]⟩

/-- Whatever a file holds, it is read to its end or until there are too many
errors: every record that is stored could have been written, and the errors are
logged for lines in turn.  Unless the data breaks off in a line, nothing outside
of the buffer is read. -/
theorem load_ends (headers : Headers ω) (memoryBuffer : Text) :
    ∃ r, EndsIn () (fun fuel => loadMapFromMemory headers fuel memoryBuffer)
        (.ok r) ∧
      (∀ loaded ∈ r, loaded.1.WellFormed headers ∧
        loaded.2.length ≤ maxErrorsBeforeBailing + 1 ∧
        (loaded.2.Pairwise fun error later => error.2 < later.2) ∧
        (loaded.1.isCorrupt = true ↔ loaded.2 ≠ [])) ∧
      (Complete memoryBuffer → r.isSome = true) := by
  obtain ⟨r, hload, hloaded⟩ := load_within headers memoryBuffer
  exact ⟨r, .of_ok hload, hloaded⟩

end Accepted

/-- A line that breaks off behind the name of the platform leads out of the
buffer. -/
example : loadMapFromMemory sampleHeaders 1 "STACK CFI\x00".toList = .ok none :=
  rfl

end SymbolFile
end MiscCode
