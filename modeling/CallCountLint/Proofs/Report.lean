import CallCountLint.Cli.Run
import CallCountLint.Proofs.Json.Writing
import CallCountLint.Proofs.Nodes

/-!
This module contains the reading of a report from JSON, and the proof that a printed report is read
back as it was. An object is read by its keys, in whatever order they are, and has to have them all
and no others.
-/

namespace CallCountLint

namespace Json.Data

theorem items?_array {α : Type} {read : Data → Option α} {write : α → Value}
    (h : ∀ item, read (write item).toData = some item) (items : List α) :
    (Value.array (items.map write)).toData.items? read = some items := by
  rw [Value.toData, itemsData_eq_map, items?]
  induction items with
  | nil => rfl
  | cons item items ih =>
    rw [List.map_cons, List.map_cons, List.mapM_cons, h, ih]
    rfl

end Json.Data

namespace Cli.Report

open Assertion CallCountLint.Fix Json Text

def readPosition (data : Data) : Option Position := do
  let [line, column] ← data.fields? ["line", "column"] | none
  return { line := ← line.natural?, column := ← column.natural? }

def readSpan (data : Data) : Option Span := do
  let [startByte, stopByte, start, stop] ←
    data.fields? ["start_byte", "end_byte", "start", "end"] | none
  return {
    startByte := ← startByte.natural?
    stopByte := ← stopByte.natural?
    start := ← readPosition start
    stop := ← readPosition stop }

def readRule (id name : Data) : Option Rule := do
  let id ← id.string?
  let name ← name.string?
  [Rule.repeatedAssertionDeprecated].find? fun rule => rule.id = id ∧ rule.name = name

def readSeverity (data : Data) : Option Severity := do
  let name ← data.string?
  [Severity.warning].find? fun severity => severity.name = name

def readDiagnostic (data : Data) : Option Diagnostic := do
  let [id, kind, message, severity, span] ←
    data.fields? ["id", "kind", "message", "severity", "span"] | none
  return {
    rule := ← readRule id kind
    message := ← message.string?
    severity := ← readSeverity severity
    span := ← readSpan span }

def readFix (data : Data) : Option ReportedFix := do
  let [replacement, span] ← data.fields? ["replacement", "span"] | none
  return { replacement := ← replacement.string?, span := ← readSpan span }

def ofData? (data : Data) : Option Report := do
  let [diagnostics, fixes, path] ← data.fields? ["diagnostics", "fixes", "path"] | none
  return {
    diagnostics := ← diagnostics.items? readDiagnostic
    fixes := ← fixes.items? readFix
    path := ← path.string? }

theorem readPosition_ofPosition (position : Position) :
    readPosition (ofPosition position).toData = some position := by
  simp [readPosition, ofPosition, Value.toData, membersData, Data.fields?, List.lookup,
    Data.natural?_number]

theorem readSpan_ofSpan (span : Span) : readSpan (ofSpan span).toData = some span := by
  simp [readSpan, ofSpan, Value.toData, membersData, Data.fields?, List.lookup,
    Data.natural?_number, readPosition_ofPosition]

theorem readRule_names (rule : Rule) :
    readRule (.string rule.id) (.string rule.name) = some rule := by
  cases rule
  rfl

theorem readSeverity_name (severity : Severity) :
    readSeverity (.string severity.name) = some severity := by
  cases severity
  rfl

theorem readDiagnostic_ofDiagnostic (diagnostic : Diagnostic) :
    readDiagnostic (ofDiagnostic diagnostic).toData = some diagnostic := by
  simp [readDiagnostic, ofDiagnostic, Value.toData, membersData, Data.fields?, List.lookup,
    Data.string?, readRule_names, readSeverity_name, readSpan_ofSpan]

theorem readFix_ofFix (fix : ReportedFix) : readFix (ofFix fix).toData = some fix := by
  simp [readFix, ofFix, Value.toData, membersData, Data.fields?, List.lookup, Data.string?,
    readSpan_ofSpan]

theorem ofData?_toData (report : Report) : ofData? report.toValue.toData = some report := by
  have hdiagnostics := Data.items?_array readDiagnostic_ofDiagnostic report.diagnostics
  have hfixes := Data.items?_array readFix_ofFix report.fixes
  simp only [Value.toData] at hdiagnostics hfixes
  simp [ofData?, toValue, Value.toData, membersData, Data.fields?, List.lookup, Data.string?,
    hdiagnostics, hfixes]

/--
The text is JSON for one value only, and the value is the report.
-/
def ReadsAs (text : List Char) (report : Report) : Prop :=
  ∃ data, read? text = some data ∧ (∀ other : Data, other.SpelledAs text → other = data)
    ∧ ofData? data = some report

theorem readsAs_text (report : Report) : ReadsAs report.text report := by
  have hspelled : report.toValue.toData.SpelledAs report.text := by
    simpa [Data.SpelledAs, text] using
      report.toValue.spelledTokens_write (.blank '\n' (by decide) .nil) 0
  have hread := read?_eq_some_iff.mpr hspelled
  refine ⟨report.toValue.toData, hread, fun other hother => ?_, report.ofData?_toData⟩
  rw [read?_eq_some_iff.mpr hother] at hread
  exact Option.some.inj hread

theorem ReadsAs.unique {text : List Char} {report other : Report} (h : ReadsAs text report)
    (h' : ReadsAs text other) : report = other := by
  obtain ⟨data, hdata, -, hreport⟩ := h
  obtain ⟨data', hdata', -, hother⟩ := h'
  obtain rfl := Option.some.inj (hdata.symm.trans hdata')
  exact Option.some.inj (hreport.symm.trans hother)

def ofReplacement (replacement : Replacement) : ReportedFix where
  replacement := String.ofList replacement.text
  span := replacement.span

theorem mapM_reportedFix (document : Document) (edits : List Edit) :
    (edits.mapM fun edit => do
      let replacement ← document.replacement edit
      return { replacement := String.ofList replacement.text, span := replacement.span })
      = (document.replacements edits).map (List.map ofReplacement) := by
  unfold Document.replacements
  induction edits with
  | nil => rfl
  | cons edit edits ih =>
    rw [List.mapM_cons, List.mapM_cons, ih]
    cases document.replacement edit with
    | error => rfl
    | ok replacement => cases edits.mapM document.replacement <;> rfl

theorem ofAnalysis_eq_ok_iff {path : String} {document : Document} {analysis : Analysis}
    {report : Report} :
    ofAnalysis path document analysis = .ok report ↔
      ∃ replacements, document.replacements analysis.edits = .ok replacements
        ∧ report = ⟨analysis.diagnostics, replacements.map ofReplacement, path⟩ := by
  unfold ofAnalysis
  rw [mapM_reportedFix]
  cases document.replacements analysis.edits with
  | error => simp [Except.map, bind, Except.bind]
  | ok replacements => simp [Except.map, eq_comm]

theorem output_eq_ok_iff (options : Options) {document : Document} {analysis : Analysis}
    {output : Output} (hjson : options.json = true) :
    options.output document analysis = .ok output ↔
      ∃ report, ofAnalysis options.path document analysis = .ok report
        ∧ output = .json report.text := by
  unfold Options.output
  rw [if_pos hjson, bind_eq_ok_iff]
  simp [pure_eq_ok, eq_comm]

/--
A report is read back from its text as it was, so different reports have different texts. What a run
prints is the text of the report about its path, its diagnostics and its replacements.
-/
theorem text_reads_back :
    (∀ report : Report, ReadsAs report.text report)
    ∧ (∀ report other : Report, report.text = other.text → report = other)
    ∧ ∀ (options : Options) (document : Document) (analysis : Analysis) (output : Output),
      options.json = true → options.output document analysis = .ok output →
      ∃ replacements, document.replacements analysis.edits = .ok replacements
        ∧ ReadsAs output.text.toList
          ⟨analysis.diagnostics, replacements.map ofReplacement, options.path⟩ := by
  refine ⟨readsAs_text, fun report other htext => ?_, ?_⟩
  . have hother := readsAs_text other
    rw [← htext] at hother
    exact (readsAs_text report).unique hother
  . intro options document analysis output hjson houtput
    obtain ⟨report, hreport, rfl⟩ := (output_eq_ok_iff options hjson).mp houtput
    obtain ⟨replacements, hreplacements, rfl⟩ := ofAnalysis_eq_ok_iff.mp hreport
    refine ⟨replacements, hreplacements, ?_⟩
    rw [Output.text, String.toList_ofList]
    exact readsAs_text _

/--
A document of one name that holds most of what has to be escaped, and characters of two and four
bytes.
-/
def escaped : Document :=
  .ofParse "\"\\\n\x01é😀".toList (.node "identifier" false 0 10 [])

def escaped.analysis : Analysis where
  diagnostics := [{ message := "\t\x00\"", span := ⟨0, 10, ⟨0, 0⟩, ⟨1, 7⟩⟩ }]
  edits := [{ node := 0, replacement := .call (.node 0) [] }]

theorem text_reads_back_escaped :
    ∃ output, ({ path := "\\\"/é", json := true } : Options).output escaped escaped.analysis
        = .ok output
      ∧ ReadsAs output.text.toList {
        diagnostics := [{ message := "\t\x00\"", span := ⟨0, 10, ⟨0, 0⟩, ⟨1, 7⟩⟩ }]
        fixes := [{
          replacement := "\"\\\n\x01é😀()"
          span := ⟨0, 10, ⟨0, 0⟩, ⟨1, 7⟩⟩ }]
        path := "\\\"/é" } := by
  have hreplacements : escaped.replacements escaped.analysis.edits
      = .ok [⟨⟨0, 10, ⟨0, 0⟩, ⟨1, 7⟩⟩, "\"\\\n\x01é😀()".toList⟩] := by cbv
  have houtput := (output_eq_ok_iff { path := "\\\"/é", json := true } rfl).mpr
    ⟨_, ofAnalysis_eq_ok_iff.mpr ⟨_, hreplacements, rfl⟩, rfl⟩
  obtain ⟨replacements, hreplacements', hreads⟩ := text_reads_back.2.2 _ _ _ _ rfl houtput
  obtain rfl := Except.ok.inj (hreplacements.symm.trans hreplacements')
  exact ⟨_, houtput, hreads⟩

end Cli.Report

end CallCountLint
