/-!
This module contains call counts as the `Repeated` vocabulary expresses them: how often a test
expects a call to have happened.
-/

namespace CallCountLint.Assertion

inductive Bound where
  | atLeast
  | atMost
  | exactly
  deriving DecidableEq, Repr

def Bound.word : Bound → String
  | .atLeast => "AtLeast"
  | .atMost => "NoMoreThan"
  | .exactly => "Exactly"

def Bound.ofWord? : String → Option Bound
  | "AtLeast" => some .atLeast
  | "NoMoreThan" => some .atMost
  | "Exactly" => some .exactly
  | _ => none

/--
What a number of calls is compared with. A count is a value of `α`, for instance the expression that
was written for it.
-/
inductive Amount (α : Type) where
  | once
  | twice
  | times (count : α)
  deriving DecidableEq, Repr

inductive Expectation (α : Type) where
  | never
  | counted (bound : Bound) (amount : Amount α)
  | matching (predicate : α)
  deriving DecidableEq, Repr

inductive Payload (α : Type) where
  | count (value : α)
  | predicate (value : α)
  deriving DecidableEq, Repr

def Payload.value : Payload α → α
  | .count value => value
  | .predicate value => value

/--
An expectation without its count or predicate.
-/
abbrev Shape := Expectation Unit

namespace Expectation

def payload? : Expectation α → Option (Payload α)
  | .counted _ (.times count) => some (.count count)
  | .matching predicate => some (.predicate predicate)
  | _ => none

def shape : Expectation α → Shape
  | .never => .never
  | .counted bound .once => .counted bound .once
  | .counted bound .twice => .counted bound .twice
  | .counted bound (.times _) => .counted bound (.times ())
  | .matching _ => .matching ()

end Expectation

namespace Shape

def all : List Shape :=
  [Bound.atLeast, .atMost, .exactly].flatMap
    (fun bound => [.counted bound (.times ()), .counted bound .once, .counted bound .twice])
    ++ [.never, .matching ()]

def display : Shape → String
  | .never => "Repeated.Never"
  | .counted bound .once => "Repeated." ++ bound.word ++ ".Once"
  | .counted bound .twice => "Repeated." ++ bound.word ++ ".Twice"
  | .counted bound (.times _) => "Repeated." ++ bound.word ++ ".Times(n)"
  | .matching _ => "Repeated.Like(predicate)"

end Shape

end CallCountLint.Assertion
