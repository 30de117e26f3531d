import CallCountLint.Assertion.Diagnostic
import CallCountLint.Fix.Template

/-!
This module contains the log of a run. What happened before a fault stays in the log.
-/

namespace CallCountLint

open Assertion CallCountLint.Fix Text

inductive Event where
  | flagged (rule : Rule) (position : Position)
  | replacing (shape : Shape) (position : Position) (method : String)
  | unfixed (rule : Rule) (error : FixError)
  /-- An edit is left out because an earlier one covers it. -/
  | skipped (position : Position)
  deriving DecidableEq, Repr

namespace Event

def level : Event → String
  | .flagged .. => "DEBUG"
  | .replacing .. => "DEBUG"
  | .unfixed .. => "ERROR"
  | .skipped .. => "WARN"

def message : Event → String
  | .flagged rule position => rule.id ++ " at " ++ position.display
  | .replacing shape position method =>
    "rewriting `" ++ shape.display ++ "` at " ++ position.display ++ " to `" ++ method ++ "`"
  | .unfixed rule error => rule.title ++ ": " ++ error.message
  | .skipped position => "skipping edit at " ++ position.display ++ " nested in another edit"

def line (event : Event) : String :=
  event.level ++ " " ++ event.message

end Event

def Fix.Proposal.event (proposal : Proposal) : Event :=
  .replacing proposal.shape proposal.position proposal.method

/--
A result or a fault, and what was logged up to then.
-/
structure Logged (α : Type) where
  events : List Event
  result : Except Fault α

namespace Logged

def log (events : List Event) : Logged Unit where
  events := events
  result := .ok ()

def silent (result : Except Fault α) : Logged α where
  events := []
  result := result

instance : Monad Logged where
  pure a := ⟨[], .ok a⟩
  bind x f :=
    match x.result with
    | .ok a => ⟨x.events ++ (f a).events, (f a).result⟩
    | .error fault => ⟨x.events, .error fault⟩

instance : MonadLift (Except Fault) Logged where
  monadLift := silent

end Logged

end CallCountLint
