import CallCountLint.Fix.Splice
import CallCountLint.Log
import CallCountLint.Syntax.Lowering
import CallCountLint.Syntax.Walk

/-!
This module contains documents: a source text and its syntax tree. A document renders replacement
expressions, in which the nodes of its tree stand for their text, and splices edits into its text.
-/

namespace CallCountLint

open CallCountLint.Fix Syntax

structure Document where
  content : Text
  tree : Tree
  deriving Inhabited

namespace Document

def ofParse (content : Text) (parse : ParseTree) : Document where
  content := content
  tree := .ofParse content parse

def text (document : Document) (id : Nat) : Except Fault Text := do
  let span ← document.tree.arena.span id
  document.content.cut span.startByte span.stopByte

mutual

def render (document : Document) : Expr → Except Fault Text
  | .node id => document.text id
  | .identifier name => .ok name.toList
  | .member target name => return (← document.render target) ++ '.' :: name.toList
  | .conditional target name => return (← document.render target) ++ '?' :: '.' :: name.toList
  | .call callee arguments => do
    let callee ← document.render callee
    let arguments ← document.renderAll arguments
    return callee ++ '(' :: List.intercalate [',', ' '] arguments ++ [')']

def renderAll (document : Document) : List Expr → Except Fault (List Text)
  | [] => .ok []
  | expr :: exprs => return (← document.render expr) :: (← document.renderAll exprs)

end

def replacement (document : Document) (edit : Edit) : Except Fault Replacement := do
  let span ← document.tree.arena.span edit.node
  let text ← document.render edit.replacement
  return { span, text }

def replacements (document : Document) (edits : List Edit) : Except Fault (List Replacement) :=
  edits.mapM document.replacement

/--
The content with edits performed. All of them are rendered before any is performed.
-/
def apply (document : Document) (edits : List Edit) : Logged Text := do
  let replacements ← document.replacements edits
  let selection := Selection.ofReplacements replacements
  Logged.log (selection.skipped.map fun replacement => .skipped replacement.span.start)
  selection.apply document.content

end Document

end CallCountLint
