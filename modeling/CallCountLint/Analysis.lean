import CallCountLint.Document

/-!
This module contains the analysis of a tree: every rule is tried on every call, in the order of the
calls. A call whose replacement fails still has its diagnostic, and the other calls do not depend on
it.
-/

namespace CallCountLint

open Assertion CallCountLint.Fix Syntax

structure Analysis where
  diagnostics : List Diagnostic := []
  edits : List Edit := []
  errors : List FixError := []

namespace Analysis

def isEmpty (analysis : Analysis) : Bool :=
  analysis.diagnostics.isEmpty && analysis.edits.isEmpty && analysis.errors.isEmpty

def addDiagnostic (analysis : Analysis) (rule : Rule) : Option Diagnostic → Logged Analysis
  | some diagnostic => do
    Logged.log [.flagged rule diagnostic.span.start]
    return { analysis with diagnostics := analysis.diagnostics ++ [diagnostic] }
  | none => return analysis

def addFix (analysis : Analysis) (rule : Rule) :
    Option (Except FixError Proposal) → Logged Analysis
  | some (.ok proposal) => do
    Logged.log [proposal.event]
    return { analysis with edits := analysis.edits ++ [proposal.edit] }
  | some (.error error) => do
    Logged.log [.unfixed rule error]
    return { analysis with errors := analysis.errors ++ [error] }
  | none => return analysis

end Analysis

namespace Syntax.Tree

def diagnose? (tree : Tree) (config : Config) (rule : Rule) (call : Nat) :
    Except Fault (Option Diagnostic) := do
  match rule with
  | .repeatedAssertionDeprecated =>
    match ← tree.arena.site? call with
    | some site => return some (← site.diagnostic tree.arena config)
    | none => return none

/--
What a rule replaces a call by, if the rule applies to it. The call is matched anew.
-/
def fix? (tree : Tree) (table : Table) (rule : Rule) (call : Nat) :
    Except Fault (Option (Except FixError Proposal)) := do
  match rule with
  | .repeatedAssertionDeprecated =>
    match ← tree.arena.site? call with
    | some site => return some (← table.propose tree.arena site)
    | none => return none

def tryRule (tree : Tree) (config : Config) (table : Table) (call : Nat) (analysis : Analysis)
    (rule : Rule) : Logged Analysis := do
  let analysis ← analysis.addDiagnostic rule (← tree.diagnose? config rule call)
  analysis.addFix rule (← tree.fix? table rule call)

def visit (tree : Tree) (config : Config) (table : Table) (analysis : Analysis) (call : Nat) :
    Logged Analysis :=
  Rule.all.foldlM (tree.tryRule config table call) analysis

def analyze (tree : Tree) (config : Config) (table : Table) : Logged Analysis := do
  (← tree.calls).foldlM (tree.visit config table) {}

/--
The diagnostics alone. No replacement is built, and nothing is logged.
-/
def diagnostics (tree : Tree) (config : Config) : Except Fault (List Diagnostic) := do
  let found ← (← tree.calls).mapM fun call =>
    Rule.all.filterMapM fun rule => tree.diagnose? config rule call
  return found.flatten

end Syntax.Tree

structure Fixed where
  analysis : Analysis
  rendered : List Text
  content : Text

def Document.fix (document : Document) (config : Config) (table : Table) : Logged Fixed := do
  let analysis ← document.tree.analyze config table
  let rendered ← document.renderAll (analysis.edits.map (·.replacement))
  let content ← document.apply analysis.edits
  return { analysis, rendered, content }

end CallCountLint
