import CallCountLint.Text.Offset
import CallCountLint.Text.Span

/-!
This module contains the line structure of a text, which comes in two forms. `Lines` gives the
positions of syntax: only a line feed starts a line, and columns count bytes. `Location` is what a
report shows: every line terminator of Unicode ends a line, and columns count characters.
-/

namespace CallCountLint.Text

/--
The byte offsets at which the lines of a text begin, apart from the first line, which begins at
zero.
-/
structure Lines where
  starts : List Nat

namespace Lines

def ofText (text : Text) : Lines where
  starts := go text 0
where
  go : Text → Nat → List Nat
    | [], _ => []
    | c :: text, offset =>
      let next := offset + c.utf8Size
      if c = '\n' then next :: go text next else go text next

/--
The position of a byte: the number of lines that begin after the first and no later than the byte,
and the distance from the start of the last of them.
-/
def position (lines : Lines) (offset : Nat) : Position :=
  go lines.starts 0 0
where
  go : List Nat → Nat → Nat → Position
    | [], line, start => ⟨line, offset - start⟩
    | next :: starts, line, start =>
      if next ≤ offset then go starts (line + 1) next else ⟨line, offset - start⟩

def span (lines : Lines) (start stop : Nat) : Span where
  startByte := start
  stopByte := stop
  start := lines.position start
  stop := lines.position stop

end Lines

/--
The characters that end a line in a report. A carriage return and a line feed after it end one line
together.
-/
def isTerminator (c : Char) : Bool :=
  c == '\n' || c == '\r' || c == '\x0b' || c == '\x0c' || c == '\u0085' || c == '\u2028'
    || c == '\u2029'

/--
A place as a report shows it. Lines and columns count from one, columns in characters.
-/
structure Location where
  line : Nat
  column : Nat
  deriving DecidableEq, Repr

namespace Location

/--
The location of the character at `index`. The end of a text that ends in a terminator still belongs
to its last line.
-/
def ofIndex (text : Text) (index : Nat) : Location :=
  go text index 1 1
where
  go : Text → Nat → Nat → Nat → Location
    | [], _, line, column => ⟨line, column⟩
    | _, 0, line, column => ⟨line, column⟩
    | c :: text, index + 1, line, column =>
      if isTerminator c && !text.isEmpty && !(c == '\r' && text.head? == some '\n') then
        go text index (line + 1) 1
      else
        go text index line (column + 1)

def display (location : Location) : String :=
  toString location.line ++ ":" ++ toString location.column

end Location

end CallCountLint.Text
