import MiscCode.SymbolFile.Records

/-!
# Symbol files that were written

A file with one record on each line is read without an error, and every record
is stored as it was written, in turn.
-/

namespace MiscCode
namespace SymbolFile

open CallFrameInfo Fuel WhileLoop Words

/-! ## Records in turn -/

/-- A record of a symbol file. -/
inductive Record where
  | file (file : ℤ × Text)
  | function (function : Function)
  | line (line : Line)
  | publicSymbol (symbol : PublicSymbol)
  | initial (rules : InitialRules)
  | delta (delta : UInt64 × Text)

/-- The line of a record. -/
def Record.text : Record → Text
  | .file entry => fileLine entry
  | .function func => functionLine func
  | .line sourceLine => lineLine sourceLine
  | .publicSymbol symbol => publicLine symbol
  | .initial rules => initialLine rules
  | .delta entry => deltaLine entry

/-- A file with one line for each record. -/
def write (records : List Record) : Text :=
  records.flatMap fun record => record.text ++ ['\n']

section Store

variable {ω : Type}

/-- What a record adds to a module that has been read as far as the record. -/
def Loading.store (s : Loading ω) (record : Record) : Loading ω :=
  let s := { s with lineNumber := s.lineNumber + 1 }
  match record with
  | .file file =>
      { s with module := { s.module with files := s.module.files ++ [file] } }
  | .function function => s.setCurFunc (some { function with lines := [] })
  | .line line =>
      { s with
        curFunc := s.curFunc.map fun function =>
          { function with lines := function.lines ++ [line] } }
  | .publicSymbol symbol =>
      let s := s.setCurFunc none
      { s with
        module := { s.module with
          publicSymbols := s.module.publicSymbols ++ [symbol] } }
  | .initial rules =>
      { s with
        module := { s.module with
          cfiInitialRules := s.module.cfiInitialRules ++ [rules] } }
  | .delta delta =>
      { s with
        module := { s.module with
          cfiDeltaRules := setDelta s.module.cfiDeltaRules delta.1 delta.2 } }

/-- A record that can be stored: its parts can be written on a line, a source
line has a function in front of it, and a public symbol is let in. -/
def Record.Fits (headers : Headers ω) (s : Loading ω) : Record → Prop
  | .file entry => WellFormedFile entry
  | .function func => func.WellFormed
  | .line sourceLine => sourceLine.WellFormed ∧ s.curFunc.isSome
  | .publicSymbol symbol => symbol.WellFormed ∧ symbol.address ≠ 0 ∧
      headers.publicAccepts s.module.publicSymbols symbol.address = true
  | .initial rules => EndsLine rules.rules
  | .delta entry => EndsLine entry.2

/-- Records of which each can be stored behind those in front of it. -/
def FitInTurn (headers : Headers ω) : Loading ω → List Record → Prop
  | _, [] => True
  | s, record :: records =>
      record.Fits headers s ∧ FitInTurn headers (s.store record) records

variable {headers : Headers ω} {s : Loading ω} {record : Record}

@[simp] theorem Loading.store_errors (s : Loading ω) (record : Record) :
    (s.store record).errors = s.errors := by
  cases record
  all_goals rfl

@[simp] theorem Loading.store_rest (s : Loading ω) (record : Record) :
    (s.store record).rest = s.rest := by
  cases record
  all_goals rfl

/-! ## One line -/

/-- The lines of records can be told apart from what is behind them. -/
theorem Record.Fits.endsLine (h : record.Fits headers s) :
    EndsLine record.text := by
  cases record with
  | file entry => exact endsLine_fileLine h
  | function func => exact endsLine_functionLine h
  | line sourceLine => exact endsLine_lineLine sourceLine
  | publicSymbol symbol => exact endsLine_publicLine h.1
  | initial rules => exact endsLine_initialLine h
  | delta entry => exact endsLine_deltaLine h

/-- A source line starts with a digit, and so with none of the names of the
other records. -/
theorem isPrefixOf_lineLine {c : Char} (hc : ∀ d < 16, Nat.digitChar d ≠ c)
    (name : Text) (line : Line) :
    (c :: name).isPrefixOf (lineLine line) = false := by
  obtain ⟨digit, digits, hdigits⟩ := List.exists_cons_of_ne_nil
    (isWord_writeUnsigned line.address).ne_nil
  have hmem : digit ∈ writeUnsigned line.address := by simp [hdigits]
  obtain ⟨d, hd, rfl⟩ := Strto.mem_toDigits (by decide) hmem
  simp [lineLine, writeFields, hdigits, List.isPrefixOf, (hc d hd).symm]

/-- The line of a record stores the record. -/
theorem loadLine_text (h : record.Fits headers s) (behind : Option Text) :
    loadLine headers record.text behind s = some (s.store record) := by
  cases record with
  | file entry =>
      have hfile : "FILE ".toList.isPrefixOf (fileLine entry) = true := rfl
      have hparse := parseFile_fileLine (show WellFormedFile entry from h)
      simp only [Record.text, loadLine, hfile, if_true, hparse]
      rfl
  | function func =>
      have hfile : "FILE ".toList.isPrefixOf (functionLine func) = false := rfl
      have hstack : "STACK ".toList.isPrefixOf (functionLine func) = false := rfl
      have hfunc : "FUNC ".toList.isPrefixOf (functionLine func) = true := rfl
      have hparse := parseFunction_functionLine (show func.WellFormed from h)
      simp only [Record.text, loadLine, hfile, hstack, hfunc, Bool.false_eq_true,
        if_false, if_true, hparse]
      rfl
  | line sourceLine =>
      obtain ⟨func, hfunc⟩ := Option.isSome_iff_exists.mp h.2
      have hfile : "FILE ".toList.isPrefixOf (lineLine sourceLine) = false :=
        isPrefixOf_lineLine (by decide) _ _
      have hstack : "STACK ".toList.isPrefixOf (lineLine sourceLine) = false :=
        isPrefixOf_lineLine (by decide) _ _
      have hfunction : "FUNC ".toList.isPrefixOf (lineLine sourceLine) = false :=
        isPrefixOf_lineLine (by decide) _ _
      have hpublic : "PUBLIC ".toList.isPrefixOf (lineLine sourceLine) = false :=
        isPrefixOf_lineLine (by decide) _ _
      have hmodule : "MODULE ".toList.isPrefixOf (lineLine sourceLine) = false :=
        isPrefixOf_lineLine (by decide) _ _
      have hinfo : "INFO ".toList.isPrefixOf (lineLine sourceLine) = false :=
        isPrefixOf_lineLine (by decide) _ _
      have hparse := parseLine_lineLine h.1
      simp only [Record.text, loadLine, hfile, hstack, hfunction, hpublic,
        hmodule, hinfo, Bool.false_eq_true, if_false, hparse, hfunc,
        Loading.store, Option.map_some]
  | publicSymbol symbol =>
      obtain ⟨hsymbol, hne, haccepts⟩ := h
      have hfile : "FILE ".toList.isPrefixOf (publicLine symbol) = false := rfl
      have hstack : "STACK ".toList.isPrefixOf (publicLine symbol) = false := rfl
      have hfunc : "FUNC ".toList.isPrefixOf (publicLine symbol) = false := rfl
      have hpublic : "PUBLIC ".toList.isPrefixOf (publicLine symbol) = true := rfl
      have hparse := parsePublicSymbol_publicLine hsymbol
      simp only [Record.text, loadLine, hfile, hstack, hfunc, hpublic,
        Bool.false_eq_true, if_false, if_true, hparse, if_neg hne]
      exact if_pos haccepts
  | initial rules =>
      have hfile : "FILE ".toList.isPrefixOf (initialLine rules) = false := rfl
      have hstack : "STACK ".toList.isPrefixOf (initialLine rules) = true := rfl
      have hparse : parseStackInfo headers (initialLine rules) behind s.module =
          some (true, _, none) :=
        (parseStackInfo_cfi s.module headers ("INIT ".toList ++ _) behind).trans
          (by rw [parseCFIFrameInfo_initial s.module h])
      simp only [Record.text, loadLine, hfile, hstack, Bool.false_eq_true,
        if_false, if_true, hparse]
      rfl
  | delta entry =>
      have hfile : "FILE ".toList.isPrefixOf (deltaLine entry) = false := rfl
      have hstack : "STACK ".toList.isPrefixOf (deltaLine entry) = true := rfl
      have hparse : parseStackInfo headers (deltaLine entry) behind s.module =
          some (true, _, none) :=
        (parseStackInfo_cfi s.module headers _ behind).trans
          (by rw [parseCFIFrameInfo_delta s.module h])
      simp only [Record.text, loadLine, hfile, hstack, Bool.false_eq_true,
        if_false, if_true, hparse]
      rfl

/-! ## One turn -/

theorem endsWithLine_cons {line : Text} (hline : IsWord isLineEnd line)
    (more : Text) : endsWithLine (line ++ '\n' :: more) = false := by
  obtain ⟨c, cs, rfl⟩ := List.exists_cons_of_ne_nil hline.ne_nil
  have hc : isLineEnd c = false := hline.unbroken c List.mem_cons_self
  have hdrop : ((c :: cs) ++ '\n' :: more).dropWhile (fun c => !isLineEnd c) =
      '\n' :: more := by
    rw [List.dropWhile_append_of_pos]
    · rfl
    · intro d hd
      simp [hline.unbroken d hd]
  rw [endsWithLine, List.cons_append, List.dropWhile_cons_of_neg (by simp [hc]),
    ← List.cons_append, hdrop]
  rfl

/-- Whether a record can be stored does not depend on what is left to read. -/
theorem fits_rest (rest : Text) :
    record.Fits headers { s with rest := rest } ↔ record.Fits headers s := by
  cases record
  all_goals exact Iff.rfl

theorem store_rest (s : Loading ω) (rest : Text) (record : Record) :
    ({ s with rest := rest } : Loading ω).store record =
      { s.store record with rest := rest } := by
  cases record
  all_goals rfl

/-- A turn stores the record of the line. -/
theorem loadTurn_text (padded : Bool) (h : record.Fits headers s) {more : Text}
    (hrest : s.rest = record.text ++ '\n' :: more)
    (herrors : s.errors.length ≤ maxErrorsBeforeBailing) :
    loadTurn headers padded s =
      .again { s.store record with rest := more } := by
  have hline := h.endsLine.isWord
  have hnext : next isLineEnd s.rest = some (record.text, more) := by
    rw [hrest]
    exact next_isWord_cons hline (by decide) more
  have hends : endsWithLine s.rest = false := by
    rw [hrest]
    exact endsWithLine_cons hline more
  have hload := loadLine_text ((fits_rest more).mpr h) (some more)
  simp only [loadTurn, hnext, hends, Bool.false_and, Bool.false_eq_true, if_false,
    hload, store_rest, Loading.store_errors, if_neg (not_lt.mpr herrors)]

/-! ## The whole file -/

theorem fitInTurn_rest {records : List Record} {rest : Text} :
    FitInTurn headers { s with rest := rest } records ↔
      FitInTurn headers s records := by
  induction records generalizing s with
  | nil => exact Iff.rfl
  | cons record records ih =>
      rw [FitInTurn, FitInTurn, store_rest, ih, fits_rest]

theorem foldl_store_rest (s : Loading ω) (rest : Text) (records : List Record) :
    records.foldl Loading.store { s with rest := rest } =
      { records.foldl Loading.store s with rest := rest } := by
  induction records generalizing s with
  | nil => rfl
  | cons record records ih => rw [List.foldl_cons, List.foldl_cons, store_rest, ih]

theorem FitInTurn.endsLine {records : List Record}
    (h : FitInTurn headers s records) :
    ∀ record ∈ records, EndsLine record.text := by
  induction records generalizing s with
  | nil => simp
  | cons record records ih =>
      exact List.forall_mem_cons.mpr ⟨h.1.endsLine, ih h.2⟩

/-- The loop over the lines of a written file. -/
theorem endsIn_write (padded : Bool) {records : List Record}
    (h : FitInTurn headers s records) (hrest : s.rest = write records)
    (herrors : s.errors.length ≤ maxErrorsBeforeBailing) :
    EndsIn () (fun n => loop () (fun _ s => .ok (loadTurn headers padded s)) n s)
      (.ok (some { records.foldl Loading.store s with rest := [] })) := by
  induction records generalizing s with
  | nil =>
      have hturn : loadTurn headers padded s = .leave (some s) := by
        rw [loadTurn, hrest]
        rfl
      have hend : s = { s with rest := [] } := by
        obtain ⟨module, curFunc, errors, lineNumber, rest⟩ := s
        exact congrArg _ hrest
      rw [List.foldl_nil, ← hend]
      exact endsIn_of_leave (congrArg _ hturn)
  | cons record records ih =>
      have hsplit : s.rest = record.text ++ '\n' :: write records := by
        rw [hrest, write, List.flatMap_cons, List.append_assoc]
        rfl
      have hturn := loadTurn_text padded h.1 hsplit herrors
      have hloop := ih (s := { s.store record with rest := write records })
        (fitInTurn_rest.mpr h.2) rfl (by simpa using herrors)
      rw [foldl_store_rest] at hloop
      exact (endsIn_of_again (congrArg _ hturn)).mpr hloop

/-- A state in which nothing has been read. -/
def Loading.fresh (rest : Text) : Loading ω where
  module := .fresh
  curFunc := none
  errors := []
  lineNumber := 0
  rest := rest

theorem nul_notMem_write {records : List Record}
    (h : ∀ record ∈ records, EndsLine record.text) : nul ∉ write records := by
  intro hmem
  obtain ⟨record, hrecord, hmem⟩ := List.mem_flatMap.mp hmem
  rcases List.mem_append.mp hmem with hmem | hmem
  · exact (h record hrecord).nul_notMem hmem
  · exact absurd (List.mem_singleton.mp hmem) (by decide)

theorem content_append_nul {text : Text} (h : nul ∉ text) :
    content (text ++ [nul]) = text := by
  rw [content, List.dropLast_concat, List.rdropWhile_eq_self_iff]
  intro hne hlast
  rw [decide_eq_true_eq] at hlast
  exact h (hlast ▸ List.getLast_mem hne)

/-- What the loop ends with is the result. -/
theorem load_of_loop {memoryBuffer : Text} (hne : memoryBuffer ≠ [])
    {r : Option (Loading ω)}
    (h : EndsIn () (fun n => loop () (fun _ s => .ok (loadTurn headers
      (decide ((content memoryBuffer).length + 2 ≤ memoryBuffer.length)) s)) n
        (.start memoryBuffer)) (.ok r)) :
    EndsIn () (fun fuel => loadMapFromMemory headers fuel memoryBuffer)
      (.ok (r.map Loading.finish)) := by
  obtain ⟨-, fuel, hfuel⟩ := h
  refine .of_ok (n := fuel) ?_
  rw [loadMapFromMemory, if_neg hne]
  exact bind_eq_ok.mpr ⟨r, hfuel, rfl⟩

/-- A file that was written is read without an error: its records are stored in
turn, and nothing else is. -/
theorem load_write (headers : Headers ω) {records : List Record}
    (h : FitInTurn headers (.fresh []) records) :
    EndsIn () (fun fuel => loadMapFromMemory headers fuel
        (write records ++ [nul]))
      (.ok (some (records.foldl Loading.store (.fresh [])).finish)) := by
  have hnul := nul_notMem_write h.endsLine
  have hcontent := content_append_nul hnul
  have hstart : Loading.start (write records ++ [nul]) =
      (Loading.fresh (write records) : Loading ω) := by
    have hmap : (write records).map (fun c => if c = nul then '_' else c) =
        write records := by
      refine (List.map_congr_left fun c hc => ?_).trans (List.map_id _)
      apply if_neg
      rintro rfl
      exact hnul hc
    rw [Loading.start, hcontent, hmap, if_neg hnul]
    rfl
  have hfits : FitInTurn headers (.fresh (write records)) records :=
    (fitInTurn_rest (s := .fresh [])).mpr h
  have hloop := endsIn_write (decide ((content (write records ++ [nul])).length +
    2 ≤ (write records ++ [nul]).length)) hfits rfl (Nat.zero_le _)
  rw [← hstart] at hloop
  have hload := load_of_loop (by simp) hloop
  have hfold := foldl_store_rest (ω := ω) (.fresh []) (write records) records
  rw [hstart, Option.map_some] at hload
  exact (congrArg Loading.finish hfold) ▸ hload

/-! ## The records about call frames -/

/-- The initial rule set that a record is. -/
def Record.initial? : Record → Option InitialRules
  | .initial rules => some rules
  | _ => none

/-- The later rule set that a record is, with its address. -/
def Record.delta? : Record → Option (UInt64 × Text)
  | .delta entry => some entry
  | _ => none

/-- A rule set replaces the one at its address. -/
theorem setDelta_lookup (deltas : DeltaRules) (address : UInt64)
    (deltaRules : Text) (other : UInt64) :
    (setDelta deltas address deltaRules).entries.lookup other =
      if other = address then some deltaRules
      else deltas.entries.lookup other := by
  have hbelow := lookup_filter (fun key : UInt64 => decide (key < address)) other
    deltas.entries
  have habove := lookup_filter (fun key : UInt64 => decide (address < key)) other
    deltas.entries
  rw [setDelta, List.lookup_append, hbelow, List.lookup_cons, habove]
  by_cases heq : other = address
  · subst heq
    simp
  · have hbeq : (other == address) = false := by simpa using heq
    by_cases hlt : other < address
    · simp [heq, hbeq, hlt, UInt64.not_lt.mpr (UInt64.le_of_lt hlt)]
    · have hgt : address < other :=
        UInt64.lt_of_le_of_ne (UInt64.not_lt.mp hlt) (Ne.symm heq)
      simp [heq, hbeq, hlt, hgt]

theorem store_initialRules (s : Loading ω) (record : Record) :
    (s.store record).module.cfiInitialRules =
      s.module.cfiInitialRules ++ record.initial?.toList := by
  cases record
  all_goals simp [Loading.store, Record.initial?, Loading.setCurFunc]

theorem store_deltaRules (s : Loading ω) (record : Record) (address : UInt64) :
    (s.store record).module.cfiDeltaRules.entries.lookup address =
      (record.delta?.toList.lookup address).or
        (s.module.cfiDeltaRules.entries.lookup address) := by
  cases record with
  | delta entry =>
      have hset := setDelta_lookup s.module.cfiDeltaRules entry.1 entry.2 address
      have hstore : (s.store (.delta entry)).module.cfiDeltaRules =
          setDelta s.module.cfiDeltaRules entry.1 entry.2 := rfl
      rw [hstore, hset, Record.delta?, Option.toList_some, List.lookup_cons]
      by_cases haddress : address = entry.1
      · simp [haddress]
      · have hbeq : (address == entry.1) = false := by simpa using haddress
        simp [haddress, hbeq]
  | file entry => rfl
  | function func => rfl
  | line sourceLine => rfl
  | publicSymbol symbol => rfl
  | initial rules => rfl

theorem foldl_store_initialRules (s : Loading ω) (records : List Record) :
    (records.foldl Loading.store s).module.cfiInitialRules =
      s.module.cfiInitialRules ++ records.filterMap Record.initial? := by
  induction records generalizing s with
  | nil => simp
  | cons record records ih =>
      rw [List.foldl_cons, ih, store_initialRules, List.append_assoc]
      cases hrecord : record.initial? with
      | none => rw [List.filterMap_cons_none hrecord]; rfl
      | some rules => rw [List.filterMap_cons_some hrecord]; rfl

/-- The rule set at an address is the last one that a record has there. -/
theorem foldl_store_deltaRules (s : Loading ω) (records : List Record)
    (address : UInt64) :
    (records.foldl Loading.store s).module.cfiDeltaRules.entries.lookup address =
      ((records.filterMap Record.delta?).reverse.lookup address).or
        (s.module.cfiDeltaRules.entries.lookup address) := by
  induction records generalizing s with
  | nil => rfl
  | cons record records ih =>
      rw [List.foldl_cons, ih, store_deltaRules, ← Option.or_assoc]
      cases hrecord : record.delta? with
      | none =>
          rw [List.filterMap_cons_none hrecord]
          simp
      | some entry =>
          rw [List.filterMap_cons_some hrecord, List.reverse_cons,
            List.lookup_append]
          rfl

end Store

/-! ## A file -/

/-- Headers for files without records for Windows; the map of public symbols
lets each address in once. -/
def sampleHeaders : Headers Unit where
  parseFromString _ := none
  publicAccepts symbols address := symbols.all (·.address ≠ address)

/-- One record of each kind. -/
def sampleRecords : List Record :=
  [.file (1, "a.c".toList),
    .function ⟨"main".toList, 4096, 64, 8, []⟩,
    .line ⟨4096, 4, 1, 10⟩,
    .publicSymbol ⟨"start".toList, 8192, 0⟩,
    .initial ⟨".cfa: $rsp 8 +".toList, 4096, 64⟩,
    .delta (4100, ".cfa: $rsp 16 +".toList)]

theorem endsLine_of_fitsLine {last : Text} (hne : last ≠ [])
    (h : fitsLine last = true) : EndsLine last where
  isWord := ⟨hne, fun c hc => (fitsLine_iff.mp h c hc).1⟩
  nul_notMem hnul := (fitsLine_iff.mp h nul hnul).2 rfl

theorem fitInTurn_sampleRecords :
    FitInTurn sampleHeaders (.fresh []) sampleRecords := by
  have hends (last : Text) (hne : last ≠ []) (h : fitsLine last = true) :
      EndsLine last := endsLine_of_fitsLine hne h
  exact ⟨⟨by decide, hends _ nofun rfl⟩,
    ⟨hends _ nofun rfl, by decide, by decide, by decide, nofun⟩,
    ⟨⟨by decide, by decide, by decide, by decide⟩, rfl⟩,
    ⟨⟨hends _ nofun rfl, by decide, by decide⟩, by decide, rfl⟩,
    hends _ nofun rfl, hends _ nofun rfl, trivial⟩

theorem load_write_sample :
    EndsIn () (fun fuel => loadMapFromMemory sampleHeaders fuel
        (write sampleRecords ++ [nul]))
      (.ok (some (sampleRecords.foldl Loading.store (.fresh [])).finish)) :=
  load_write sampleHeaders fitInTurn_sampleRecords

end SymbolFile
end MiscCode
