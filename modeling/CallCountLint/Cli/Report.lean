import CallCountLint.Analysis
import CallCountLint.Json.Writer
import CallCountLint.Text.Lines

/-!
This module contains what a run of the linter prints about a file: a JSON report, or a headline for
each diagnostic.
-/

namespace CallCountLint.Cli

open Assertion CallCountLint.Fix Json Text

structure ReportedFix where
  replacement : String
  span : Span
  deriving DecidableEq, Repr

structure Report where
  diagnostics : List Diagnostic
  fixes : List ReportedFix
  path : String
  deriving DecidableEq, Repr

namespace Report

def ofPosition (position : Position) : Value :=
  .object [("line", .number position.line), ("column", .number position.column)]

def ofSpan (span : Span) : Value :=
  .object [("start_byte", .number span.startByte), ("end_byte", .number span.stopByte),
    ("start", ofPosition span.start), ("end", ofPosition span.stop)]

def ofDiagnostic (diagnostic : Diagnostic) : Value :=
  .object [("id", .string diagnostic.rule.id), ("kind", .string diagnostic.rule.name),
    ("message", .string diagnostic.message), ("severity", .string diagnostic.severity.name),
    ("span", ofSpan diagnostic.span)]

def ofFix (fix : ReportedFix) : Value :=
  .object [("replacement", .string fix.replacement), ("span", ofSpan fix.span)]

def toValue (report : Report) : Value :=
  .object [("diagnostics", .array (report.diagnostics.map ofDiagnostic)),
    ("fixes", .array (report.fixes.map ofFix)), ("path", .string report.path)]

def text (report : Report) : Text :=
  report.toValue.write 0 ++ ['\n']

def ofAnalysis (path : String) (document : Document) (analysis : Analysis) :
    Except Fault Report := do
  let fixes ← analysis.edits.mapM fun edit => do
    let replacement ← document.replacement edit
    return { replacement := String.ofList replacement.text, span := replacement.span }
  return { diagnostics := analysis.diagnostics, fixes, path }

end Report

structure Headline where
  title : String
  place : String
  deriving DecidableEq, Repr

def Headline.text (headline : Headline) : String :=
  headline.title ++ "\n  at " ++ headline.place ++ "\n"

/--
The headline of a diagnostic in a file. Its place is the start of the diagnostic, or its end if that
comes first.
-/
def Headline.ofDiagnostic (path : String) (content : Text) (diagnostic : Diagnostic) :
    Except Fault Headline := do
  let start ← content.charIndex diagnostic.span.startByte
  let stop ← content.charIndex diagnostic.span.stopByte
  return {
    title := diagnostic.severity.name ++ "[" ++ diagnostic.rule.id ++ "]: " ++ diagnostic.rule.name
    place := path ++ ":" ++ (Location.ofIndex content (min start stop)).display }

end CallCountLint.Cli
