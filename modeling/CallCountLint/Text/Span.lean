/-!
This module contains positions and spans: where a piece of source text begins and ends, in bytes
and in lines and columns.
-/

namespace CallCountLint.Text

/--
A place in a text. Lines and columns count from zero, columns in bytes.
-/
structure Position where
  line : Nat := 0
  column : Nat := 0
  deriving DecidableEq, Repr, Inhabited

namespace Position

def order (a b : Position) : Ordering :=
  (compare a.line b.line).then (compare a.column b.column)

instance : LT Position where
  lt a b := a.line < b.line ∨ a.line = b.line ∧ a.column < b.column

instance : LE Position where
  le a b := a.line < b.line ∨ a.line = b.line ∧ a.column ≤ b.column

instance (a b : Position) : Decidable (a < b) :=
  inferInstanceAs (Decidable (_ ∨ _ ∧ _))

instance (a b : Position) : Decidable (a ≤ b) :=
  inferInstanceAs (Decidable (_ ∨ _ ∧ _))

def display (p : Position) : String :=
  toString (p.line + 1) ++ ":" ++ toString (p.column + 1)

end Position

/--
A range of bytes, the end excluded, together with the positions of its two ends.
-/
structure Span where
  startByte : Nat := 0
  stopByte : Nat := 0
  start : Position := {}
  stop : Position := {}
  deriving DecidableEq, Repr, Inhabited

def Span.through (a b : Span) : Span where
  startByte := a.startByte
  stopByte := b.stopByte
  start := a.start
  stop := b.stop

end CallCountLint.Text
