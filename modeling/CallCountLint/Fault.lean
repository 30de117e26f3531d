/-!
This module contains the faults: what goes wrong when a node or a piece of text is asked for that
does not exist. A fault is the caller's mistake; nothing that the linter finds in a document of its
own making raises one.
-/

namespace CallCountLint

inductive Fault where
  | unknownNode (id : Nat)
  | offsetBeyondEnd (offset : Nat)
  /-- The range ends in an earlier character than it starts in. -/
  | reversedRange (start stop : Nat)
  deriving DecidableEq, Repr

end CallCountLint
