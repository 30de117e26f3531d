import CallCountLint.Text.Printable

/-!
This module contains the quoting of a text for a message.
-/

namespace CallCountLint.Text.Quoted

def escape (c : Char) : String :=
  match c with
  | '\x00' => "\\0"
  | '\t' => "\\t"
  | '\r' => "\\r"
  | '\n' => "\\n"
  | '"' => "\\\""
  | '\\' => "\\\\"
  | c =>
    if isPrintable c then
      c.toString
    else
      "\\u\x7b" ++ String.ofList (Nat.toDigits 16 c.toNat) ++ "\x7d"

def quote (text : List Char) : String :=
  "\"" ++ String.join (text.map escape) ++ "\""

end CallCountLint.Text.Quoted
