import CallCountLint.Fault

/-!
This module contains the reading and cutting of a text by byte offsets. A text is a list of
characters, and offsets count the bytes of its UTF-8 encoding, so an offset may fall inside a
character: `charIndex?` then rounds it down, `boundary?` refuses it.
-/

namespace CallCountLint

abbrev Text := List Char

namespace Text

def byteLength : Text → Nat
  | [] => 0
  | c :: text => c.utf8Size + byteLength text

/--
The index of the character that contains the byte at `offset`. The end of the text counts as the
index after the last character; there is nothing beyond it.
-/
def charIndex? (text : Text) (offset : Nat) : Option Nat :=
  go text offset 0
where
  go : Text → Nat → Nat → Option Nat
    | [], offset, index => if offset = 0 then some index else none
    | c :: text, offset, index =>
      if offset < c.utf8Size then some index else go text (offset - c.utf8Size) (index + 1)

/--
The index of the character that starts at `offset`, or the length of the text at its end. An offset
inside a character has none.
-/
def boundary? (text : Text) (offset : Nat) : Option Nat :=
  go text offset 0
where
  go : Text → Nat → Nat → Option Nat
    | [], offset, index => if offset = 0 then some index else none
    | c :: text, offset, index =>
      if offset = 0 then some index
      else if offset < c.utf8Size then none
      else go text (offset - c.utf8Size) (index + 1)

def slice (text : Text) (start stop : Nat) : Text :=
  (text.drop start).take (stop - start)

def charIndex (text : Text) (offset : Nat) : Except Fault Nat :=
  match text.charIndex? offset with
  | some index => .ok index
  | none => .error (.offsetBeyondEnd offset)

def charRange (text : Text) (start stop : Nat) : Except Fault (Nat × Nat) := do
  let first ← text.charIndex start
  let last ← text.charIndex stop
  if first ≤ last then
    return (first, last)
  else
    throw (.reversedRange start stop)

/--
The part of a text between two byte offsets, both rounded down to the start of a character.
-/
def cut (text : Text) (start stop : Nat) : Except Fault Text := do
  let (first, last) ← text.charRange start stop
  return text.slice first last

def replace (text : Text) (start stop : Nat) (new : Text) : Except Fault Text := do
  let (first, last) ← text.charRange start stop
  return text.take first ++ new ++ text.drop last

def aligned? (text : Text) (start stop : Nat) : Option Text := do
  let first ← text.boundary? start
  let last ← text.boundary? stop
  if first ≤ last then some (text.slice first last) else none

end Text

end CallCountLint
