import CallCountLint.Assertion.Site
import CallCountLint.Fix.Expr

/-!
This module contains the templates for the calls that take the place of retired assertions, and the
filling in of a template for a given call.
-/

namespace CallCountLint.Fix

open Assertion Syntax Text

inductive Slot where
  | payload
  | member (target name : String)
  deriving DecidableEq, Repr

structure Template where
  shape : Shape
  method : String
  arguments : List Slot := []
  deriving DecidableEq, Repr

/--
A list of templates, of which the first one for a shape counts.
-/
abbrev Table := List Template

namespace Table

def find? (table : Table) (shape : Shape) : Option Template :=
  List.find? (fun template => template.shape == shape) table

def builtin : Table := [
  { shape := .never, method := "MustNotHaveHappened" },
  { shape := .counted .exactly .once, method := "MustHaveHappenedOnceExactly" },
  { shape := .counted .atLeast .once, method := "MustHaveHappenedOnceOrMore" },
  { shape := .counted .atMost .once, method := "MustHaveHappenedOnceOrLess" },
  { shape := .counted .exactly .twice, method := "MustHaveHappenedTwiceExactly" },
  { shape := .counted .atLeast .twice, method := "MustHaveHappenedTwiceOrMore" },
  { shape := .counted .atMost .twice, method := "MustHaveHappenedTwiceOrLess" },
  { shape := .counted .exactly (.times ()), method := "MustHaveHappened",
    arguments := [.payload, .member "Times" "Exactly"] },
  { shape := .counted .atLeast (.times ()), method := "MustHaveHappened",
    arguments := [.payload, .member "Times" "OrMore"] },
  { shape := .counted .atMost (.times ()), method := "MustHaveHappened",
    arguments := [.payload, .member "Times" "OrLess"] },
  { shape := .matching (), method := "MustHaveHappenedANumberOfTimesMatching",
    arguments := [.payload] }]

end Table

inductive FixError where
  | noTemplate (shape : Shape)
  | noPayload (method : String)
  deriving DecidableEq, Repr

def FixError.message : FixError → String
  | .noTemplate shape => "no replacement rule for `" ++ shape.display ++ "`"
  | .noPayload method => "`" ++ method ++ "` replacement needs an argument the match lacks"

def Slot.fill? (slot : Slot) (payload : Option (Payload Nat)) : Option Expr :=
  match slot with
  | .payload => payload.map fun payload => .node payload.value
  | .member target name => some (.member (.identifier target) name)

def calleeFor (arena : Arena) (callee : Option Nat) (method : String) : Except Fault Expr := do
  match callee with
  | none => return .identifier method
  | some callee =>
    let node ← arena.node callee
    match node.kind, node.children with
    | .memberAccess, [receiver, _] => return .member (.node receiver) method
    | .conditionalAccess, [receiver, _] => return .conditional (.node receiver) method
    | _, _ => return .identifier method

/--
An edit together with what the log says about it.
-/
structure Proposal where
  edit : Edit
  shape : Shape
  method : String
  position : Position
  deriving Repr

def Template.fill (template : Template) (arena : Arena) (site : Site) :
    Except Fault (Except FixError Proposal) := do
  let call ← arena.node site.call
  let callee ← calleeFor arena call.children.head? template.method
  match template.arguments.mapM (·.fill? site.expected.payload?) with
  | some arguments =>
    return .ok {
      edit := { node := site.call, replacement := .call callee arguments }
      shape := site.expected.shape
      method := template.method
      position := call.span.start }
  | none => return .error (.noPayload template.method)

def Table.propose (table : Table) (arena : Arena) (site : Site) :
    Except Fault (Except FixError Proposal) :=
  match table.find? site.expected.shape with
  | some template => template.fill arena site
  | none => .ok (.error (.noTemplate site.expected.shape))

end CallCountLint.Fix
