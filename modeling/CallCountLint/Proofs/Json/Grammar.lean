import Mathlib

/-!
This module contains the grammar of JSON. A value is a row of tokens, and a text spells the tokens
one after the other, with any blanks before, between and after them. Strings and numbers have many
spellings: a character may be escaped, and a number may have an exponent.
-/

namespace CallCountLint.Json

/--
A value. The members of an object are in the order in which they are written, and a key may occur
more than once.
-/
inductive Data where
  | null
  | boolean (value : Bool)
  | number (value : ℚ)
  | string (value : String)
  | array (items : List Data)
  | object (members : List (String × Data))

inductive Mark where
  | openBracket
  | closeBracket
  | openBrace
  | closeBrace
  | colon
  | comma
  deriving DecidableEq, Repr

def Mark.char : Mark → Char
  | .openBracket => '['
  | .closeBracket => ']'
  | .openBrace => '\x7b'
  | .closeBrace => '\x7d'
  | .colon => ':'
  | .comma => ','

inductive Token where
  | mark (mark : Mark)
  | null
  | boolean (value : Bool)
  | number (value : ℚ)
  | string (value : String)

mutual

def Data.tokens : Data → List Token
  | .null => [.null]
  | .boolean value => [.boolean value]
  | .number value => [.number value]
  | .string value => [.string value]
  | .array [] => [.mark .openBracket, .mark .closeBracket]
  | .array (item :: items) => .mark .openBracket :: (item.tokens ++ itemTokens items)
  | .object [] => [.mark .openBrace, .mark .closeBrace]
  | .object ((key, value) :: members) =>
    .mark .openBrace :: .string key :: .mark .colon :: (value.tokens ++ memberTokens members)

def itemTokens : List Data → List Token
  | [] => [.mark .closeBracket]
  | item :: items => .mark .comma :: (item.tokens ++ itemTokens items)

def memberTokens : List (String × Data) → List Token
  | [] => [.mark .closeBrace]
  | (key, value) :: members =>
    .mark .comma :: .string key :: .mark .colon :: (value.tokens ++ memberTokens members)

end

def IsHexDigit (c : Char) (value : Nat) : Prop :=
  value < 16 ∧ (c = value.digitChar ∨ c = value.digitChar.toUpper)

def SpelledUnit (unit : Nat) (text : List Char) : Prop :=
  unit < 0x10000
    ∧ List.Forall₂ IsHexDigit text [unit / 0x1000, unit / 0x100 % 16, unit / 16 % 16, unit % 16]

/--
The characters that have an escape of two letters, each after its second letter.
-/
def shortEscapes : List (Char × Char) :=
  [('"', '"'), ('\\', '\\'), ('/', '/'), ('b', '\x08'), ('f', '\x0c'), ('n', '\n'), ('r', '\r'),
    ('t', '\t')]

/--
The spellings of a character within a string. One that takes two units of UTF-16 is escaped as a
pair of surrogates.
-/
inductive SpelledChar (c : Char) : List Char → Prop where
  | plain (quote : c ≠ '"') (backslash : c ≠ '\\') (control : ' ' ≤ c) : SpelledChar c [c]
  | short (letter : Char) (escape : (letter, c) ∈ shortEscapes) : SpelledChar c ['\\', letter]
  | unit (digits : List Char) (unit : SpelledUnit c.toNat digits) :
    SpelledChar c ('\\' :: 'u' :: digits)
  | pair (leading trailing : List Char) (beyond : 0x10000 ≤ c.toNat)
    (first : SpelledUnit (0xd800 + (c.toNat - 0x10000) / 0x400) leading)
    (second : SpelledUnit (0xdc00 + (c.toNat - 0x10000) % 0x400) trailing) :
    SpelledChar c ('\\' :: 'u' :: (leading ++ '\\' :: 'u' :: trailing))

inductive SpelledString : List Char → List Char → Prop where
  | nil : SpelledString [] []
  | cons {c : Char} {value spelling text : List Char} (head : SpelledChar c spelling)
    (tail : SpelledString value text) : SpelledString (c :: value) (spelling ++ text)

def IsDigits (text : List Char) : Prop :=
  text ≠ [] ∧ ∀ c ∈ text, c.isDigit

/--
The digits before the point. Only zero starts with a zero.
-/
def IsWhole (text : List Char) : Prop :=
  IsDigits text ∧ (text.head? = some '0' → text = ['0'])

inductive SpelledFraction : ℚ → List Char → Prop where
  | none : SpelledFraction 0 []
  | digits (digits : List Char) (isDigits : IsDigits digits) :
    SpelledFraction (Nat.ofDigitChars 10 digits 0 / 10 ^ digits.length) ('.' :: digits)

inductive SpelledExponent : ℤ → List Char → Prop where
  | none : SpelledExponent 0 []
  | up (letter : Char) (sign digits : List Char) (isLetter : letter = 'e' ∨ letter = 'E')
    (isSign : sign = [] ∨ sign = ['+']) (isDigits : IsDigits digits) :
    SpelledExponent (Nat.ofDigitChars 10 digits 0) (letter :: (sign ++ digits))
  | down (letter : Char) (digits : List Char) (isLetter : letter = 'e' ∨ letter = 'E')
    (isDigits : IsDigits digits) :
    SpelledExponent (-(Nat.ofDigitChars 10 digits 0)) (letter :: '-' :: digits)

inductive SpelledMagnitude : ℚ → List Char → Prop where
  | intro {fraction : ℚ} {exponent : ℤ} {whole after scale : List Char} (isWhole : IsWhole whole)
    (isFraction : SpelledFraction fraction after) (isExponent : SpelledExponent exponent scale) :
    SpelledMagnitude ((Nat.ofDigitChars 10 whole 0 + fraction) * 10 ^ exponent)
      (whole ++ after ++ scale)

inductive Token.SpelledAs : Token → List Char → Prop where
  | mark (mark : Mark) : SpelledAs (.mark mark) [mark.char]
  | nullWord : SpelledAs .null ['n', 'u', 'l', 'l']
  | trueWord : SpelledAs (.boolean true) ['t', 'r', 'u', 'e']
  | falseWord : SpelledAs (.boolean false) ['f', 'a', 'l', 's', 'e']
  | number {value : ℚ} {text : List Char} (magnitude : SpelledMagnitude value text) :
    SpelledAs (.number value) text
  | negative {value : ℚ} {text : List Char} (magnitude : SpelledMagnitude value text) :
    SpelledAs (.number (-value)) ('-' :: text)
  | string {value : String} {text : List Char} (inside : SpelledString value.toList text) :
    SpelledAs (.string value) ('"' :: (text ++ ['"']))

inductive SpelledTokens : List Token → List Char → Prop where
  | nil : SpelledTokens [] []
  | blank {tokens : List Token} {text : List Char} (c : Char)
    (isBlank : c ∈ [' ', '\t', '\n', '\r']) (rest : SpelledTokens tokens text) :
    SpelledTokens tokens (c :: text)
  | token {token : Token} {tokens : List Token} {spelling text : List Char}
    (head : token.SpelledAs spelling) (rest : SpelledTokens tokens text) :
    SpelledTokens (token :: tokens) (spelling ++ text)

def Data.SpelledAs (data : Data) (text : List Char) : Prop :=
  SpelledTokens data.tokens text

end CallCountLint.Json
