import CallCountLint.Cli.Command
import CallCountLint.Cli.FileSystem
import CallCountLint.Cli.Report
import CallCountLint.Config.Reader

/-!
This module contains a run of the linter from the command line: the configuration, then the file,
the analysis, the output, and at last the fixes. A run that fails before the output leaves no trace.
-/

namespace CallCountLint.Cli

open CallCountLint.Fix Syntax

inductive Failure where
  | unreadableConfig (error : FileError)
  | badConfig (path : String) (error : Config.ReadError)
  | unreadableSource (path : String) (error : FileError)
  | unfixed (count : Nat) (first : FixError)
  | fault (fault : Fault)
  deriving Repr

namespace Failure

/--
The message about a failure. A fault has none of its own, and neither has an error in the JSON of a
configuration.
-/
def message? : Failure → Option String
  | .unreadableConfig error => some error.message
  | .badConfig path error =>
    let reason := (error.message?.map (": " ++ ·)).getD ""
    some ("failed to parse config `" ++ path ++ "`" ++ reason)
  | .unreadableSource path error =>
    some ("failed to read `" ++ path ++ "`: " ++ error.message)
  | .unfixed count first =>
    some (toString count ++ " call site(s) could not be rewritten, first failure: "
      ++ first.message)
  | .fault _ => none

def status : Failure → Nat
  | .fault _ => 101
  | _ => 1

end Failure

inductive Output where
  | nothing
  | help
  | version
  | json (text : Text)
  | headlines (headlines : List Headline)
  deriving DecidableEq, Repr

def Output.text : Output → String
  | .nothing => ""
  | .help => helpText
  | .version => versionText
  | .json report => String.ofList report
  | .headlines lines => String.join (lines.map Headline.text)

structure Effects where
  output : Output := .nothing
  content : Option Text := none
  failure : Option Failure := none
  deriving Repr

namespace Options

def resolveConfig (options : Options) (read : String → Except FileError Text) :
    Except Failure Config := do
  let config : Config ←
    match options.config with
    | none => pure {}
    | some path =>
      match read path with
      | .error error => throw (.unreadableConfig error)
      | .ok text =>
        match Config.read text with
        | .error error => throw (.badConfig path error)
        | .ok config => pure config
  return {
    deprecatedIn := options.deprecatedIn.getD config.deprecatedIn
    removedIn := options.removedIn.getD config.removedIn }

def output (options : Options) (document : Document) (analysis : Analysis) :
    Except Fault Output := do
  if options.json then
    return .json (← Report.ofAnalysis options.path document analysis).text
  else
    let headlines ← analysis.diagnostics.mapM (Headline.ofDiagnostic options.path document.content)
    return .headlines headlines

def fixed (options : Options) (document : Document) (analysis : Analysis) (output : Output) :
    Effects :=
  if options.fix ∧ analysis.edits ≠ [] then
    match (document.apply analysis.edits).result with
    | .error fault => { output, failure := some (.fault fault) }
    | .ok content => { output, content := some content }
  else
    { output }

def analyzed (options : Options) (document : Document) (config : Config) : Effects :=
  match (document.tree.analyze config .builtin).result with
  | .error fault => { failure := some (.fault fault) }
  | .ok analysis =>
    match options.output document analysis with
    | .error fault => { failure := some (.fault fault) }
    | .ok output =>
      let effects := options.fixed document analysis output
      match effects.failure, analysis.errors with
      | none, first :: rest => { effects with failure := some (.unfixed (rest.length + 1) first) }
      | _, _ => effects

def effects (options : Options) (read : String → Except FileError Text)
    (parse : Text → ParseTree) : Effects :=
  match options.resolveConfig read with
  | .error failure => { failure := some failure }
  | .ok config =>
    match read options.path with
    | .error error => { failure := some (.unreadableSource options.path error) }
    | .ok text => options.analyzed (.ofParse text (parse text)) config

end Options

structure Outcome where
  status : Nat
  output : Output := .nothing
  /-- The line on standard error, without the usage text of a misuse. -/
  errorLine : Option String := none
  fileSystem : FileSystem

def Effects.perform (effects : Effects) (path : String) (fileSystem : FileSystem) : Outcome where
  status := (effects.failure.map Failure.status).getD 0
  output := effects.output
  errorLine := (effects.failure.bind Failure.message?).map ("error: " ++ ·)
  fileSystem :=
    match effects.content with
    | some content => fileSystem.write path content
    | none => fileSystem

def run (arguments : List String) (fileSystem : FileSystem) (parse : Text → ParseTree) : Outcome :=
  match Command.ofArguments arguments with
  | .help => { status := 0, output := .help, fileSystem }
  | .version => { status := 0, output := .version, fileSystem }
  | .misuse => { status := 2, fileSystem }
  | .analyze options =>
    (options.effects fileSystem.read parse).perform options.path fileSystem

end CallCountLint.Cli
