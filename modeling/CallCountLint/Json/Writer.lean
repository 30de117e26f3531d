/-!
This module contains JSON values and their writing, spread over lines and indented by two blanks for
each level.
-/

namespace CallCountLint.Json

inductive Value where
  | number (value : Nat)
  | string (value : String)
  | array (items : List Value)
  | object (members : List (String × Value))
  deriving Repr, Inhabited

def escapeControl (c : Char) : List Char :=
  '\\' :: 'u' :: '0' :: '0' :: [Nat.digitChar (c.toNat / 16), Nat.digitChar (c.toNat % 16)]

def escape (c : Char) : List Char :=
  match c with
  | '"' => ['\\', '"']
  | '\\' => ['\\', '\\']
  | '\x08' => ['\\', 'b']
  | '\t' => ['\\', 't']
  | '\n' => ['\\', 'n']
  | '\x0c' => ['\\', 'f']
  | '\r' => ['\\', 'r']
  | c => if c < ' ' then escapeControl c else [c]

def writeString (text : String) : List Char :=
  '"' :: text.toList.flatMap escape ++ ['"']

def newline (depth : Nat) : List Char :=
  '\n' :: List.replicate (2 * depth) ' '

namespace Value

mutual

def write (depth : Nat) : Value → List Char
  | .number value => Nat.toDigits 10 value
  | .string value => writeString value
  | .array [] => ['[', ']']
  | .array (item :: items) =>
    '[' :: newline (depth + 1) ++ item.write (depth + 1) ++ writeItems (depth + 1) items
      ++ newline depth ++ [']']
  | .object [] => ['\x7b', '\x7d']
  | .object ((key, value) :: members) =>
    '\x7b' :: newline (depth + 1) ++ writeString key ++ ':' :: ' ' :: value.write (depth + 1)
      ++ writeMembers (depth + 1) members ++ newline depth ++ ['\x7d']

def writeItems (depth : Nat) : List Value → List Char
  | [] => []
  | item :: items => ',' :: newline depth ++ item.write depth ++ writeItems depth items

def writeMembers (depth : Nat) : List (String × Value) → List Char
  | [] => []
  | (key, value) :: members =>
    ',' :: newline depth ++ writeString key ++ ':' :: ' ' :: value.write depth
      ++ writeMembers depth members

end

end Value

end CallCountLint.Json
