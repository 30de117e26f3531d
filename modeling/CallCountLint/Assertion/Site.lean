import CallCountLint.Assertion.Expectation
import CallCountLint.Syntax.Arena

/-!
This module contains the recognition of retired assertions: calls of `MustHaveHappened` with exactly
one argument from the `Repeated` vocabulary,

* `Repeated.Never` and `Repeated.Like(predicate)`,
* `Repeated.AtLeast`, `Repeated.NoMoreThan` or `Repeated.Exactly`, followed by `.Once`, `.Twice` or
  `.Times(count)`.

`Repeated` may be qualified by its namespace. Parentheses may stand around the argument and around
each target in it, but not around the namespace.
-/

namespace CallCountLint.Assertion

open Syntax

def methodName : String := "MustHaveHappened"

def vocabularyName : String := "Repeated"

def namespaceName : String := "FakeItEasy"

/--
A call of the retired assertion, with the node of the method's name and the expected number of
calls. Counts and predicates are the argument nodes exactly as they were written.
-/
structure Site where
  call : Nat
  method : Nat
  expected : Expectation Nat
  deriving DecidableEq, Repr

end CallCountLint.Assertion

namespace CallCountLint.Syntax.Arena

open Assertion

def isNamespace (arena : Arena) (id : Nat) : Except Fault Bool := do
  let node ← arena.node id
  match node.kind, node.children with
  | .identifier name, [] => return name == namespaceName
  | .other "alias_qualified_name", [qualifier, name] =>
    if (← arena.identifier? qualifier) == some "global" then
      return (← arena.identifier? name) == some namespaceName
    else
      return false
  | _, _ => return false

def isVocabulary (arena : Arena) (id : Nat) : Except Fault Bool := do
  let id ← arena.stripParentheses id
  match ← arena.memberAccess? id with
  | some (qualifier, name) =>
    if name = vocabularyName then arena.isNamespace qualifier else return false
  | none => return (← arena.identifier? id) == some vocabularyName

def bound? (arena : Arena) (id : Nat) : Except Fault (Option Bound) := do
  match ← arena.memberAccess? (← arena.stripParentheses id) with
  | some (target, name) =>
    if ← arena.isVocabulary target then return Bound.ofWord? name else return none
  | none => return none

def counted? (arena : Arena) (id : Nat) (amount : Amount Nat) :
    Except Fault (Option (Expectation Nat)) :=
  return (← arena.bound? id).map (.counted · amount)

def expectation? (arena : Arena) (id : Nat) : Except Fault (Option (Expectation Nat)) := do
  let id ← arena.stripParentheses id
  let node ← arena.node id
  match node.kind, node.children with
  | .memberAccess, _ =>
    match ← arena.memberAccess? id with
    | some (target, "Never") =>
      if ← arena.isVocabulary target then return some .never else return none
    | some (target, "Once") => arena.counted? target .once
    | some (target, "Twice") => arena.counted? target .twice
    | _ => return none
  | .call, [callee, argument] =>
    match ← arena.memberAccess? (← arena.stripParentheses callee) with
    | some (target, "Like") =>
      if ← arena.isVocabulary target then return some (.matching argument) else return none
    | some (target, "Times") => arena.counted? target (.times argument)
    | _ => return none
  | _, _ => return none

def calledName? (arena : Arena) (id : Nat) : Except Fault (Option Nat) := do
  let node ← arena.node id
  match node.kind with
  | .identifier _ => return some id
  | .conditionalAccess => return node.children.getLast?
  | .memberAccess => return node.children.getLast?
  | _ => return none

def site? (arena : Arena) (id : Nat) : Except Fault (Option Site) := do
  let node ← arena.node id
  match node.kind, node.children with
  | .call, callee :: arguments =>
    match ← arena.calledName? callee with
    | some method =>
      match ← arena.identifier? method, arguments with
      | some name, [argument] =>
        if name = methodName then
          let expected? ← arena.expectation? argument
          return expected?.map fun expected => { call := id, method, expected }
        else
          return none
      | _, _ => return none
    | none => return none
  | _, _ => return none

end CallCountLint.Syntax.Arena
