import CallCountLint.Assertion.Site
import CallCountLint.Config.Basic

/-!
This module contains the diagnostics that the linter reports.
-/

namespace CallCountLint.Assertion

open Syntax Text

inductive Severity where
  | warning
  deriving DecidableEq, Repr

def Severity.name : Severity → String
  | .warning => "warning"

inductive Rule where
  | repeatedAssertionDeprecated
  deriving DecidableEq, Repr

namespace Rule

def all : List Rule := [.repeatedAssertionDeprecated]

def id : Rule → String
  | .repeatedAssertionDeprecated => "FakeItEasy0006"

def name : Rule → String
  | .repeatedAssertionDeprecated => "RepeatedAssertionDeprecated"

def title : Rule → String
  | .repeatedAssertionDeprecated => "Repeated Assertion"

end Rule

structure Diagnostic where
  rule : Rule := .repeatedAssertionDeprecated
  message : String
  severity : Severity := .warning
  span : Span
  deriving DecidableEq, Repr

/--
The diagnostic for a call of the retired assertion. It covers the call from the method's name on.
-/
def Site.diagnostic (site : Site) (arena : Arena) (config : Config) : Except Fault Diagnostic := do
  let method ← arena.span site.method
  let call ← arena.span site.call
  return { message := config.message, span := method.through call }

end CallCountLint.Assertion
