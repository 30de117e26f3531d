import CallCountLint.Text.Offset

/-!
This module contains the reading of JSON tokens from the front of a text. Each reader returns what
follows the token. A reader fails with `unexpectedEnd` if the text could be continued to a token,
and with `malformed` if it could not.
-/

namespace CallCountLint.Json

inductive ScanError where
  | unexpectedEnd
  | malformed
  deriving DecidableEq, Repr

abbrev Read (α : Type) := Except ScanError (α × List Char)

def isBlank (c : Char) : Bool :=
  c == ' ' || c == '\t' || c == '\n' || c == '\r'

def skipBlank (text : List Char) : List Char :=
  text.dropWhile isBlank

def scanWord : List Char → List Char → Except ScanError (List Char)
  | [], text => .ok text
  | _ :: _, [] => .error .unexpectedEnd
  | c :: word, d :: text => if c = d then scanWord word text else .error .malformed

def hexValue? (c : Char) : Option Nat :=
  if '0' ≤ c ∧ c ≤ '9' then some (c.toNat - '0'.toNat)
  else if 'a' ≤ c ∧ c ≤ 'f' then some (c.toNat - 'a'.toNat + 10)
  else if 'A' ≤ c ∧ c ≤ 'F' then some (c.toNat - 'A'.toNat + 10)
  else none

/--
Read four hexadecimal digits. A text that ends within fewer than four bytes has ended too early,
whatever those bytes are.
-/
def scanHex : List Char → Read Nat
  | a :: b :: c :: d :: text =>
    match hexValue? a, hexValue? b, hexValue? c, hexValue? d with
    | some a, some b, some c, some d => .ok (((a * 16 + b) * 16 + c) * 16 + d, text)
    | _, _, _, _ => .error .malformed
  | text =>
    if Text.byteLength text < 4 then .error .unexpectedEnd else .error .malformed

def isLeadingSurrogate (unit : Nat) : Bool :=
  0xd800 ≤ unit && unit < 0xdc00

def isTrailingSurrogate (unit : Nat) : Bool :=
  0xdc00 ≤ unit && unit < 0xe000

def scanTrailing : List Char → Read Nat
  | [] => .error .unexpectedEnd
  | ['\\'] => .error .unexpectedEnd
  | '\\' :: 'u' :: text =>
    match scanHex text with
    | .error error => .error error
    | .ok (unit, text) =>
      if isTrailingSurrogate unit then .ok (unit, text) else .error .malformed
  | _ => .error .malformed

def scanUnits (text : List Char) : Read Char :=
  match scanHex text with
  | .error error => .error error
  | .ok (unit, text) =>
    if isTrailingSurrogate unit then
      .error .malformed
    else if isLeadingSurrogate unit then
      match scanTrailing text with
      | .error error => .error error
      | .ok (trailing, text) =>
        .ok (Char.ofNat (0x10000 + (unit - 0xd800) * 0x400 + (trailing - 0xdc00)), text)
    else
      .ok (Char.ofNat unit, text)

def scanEscape : List Char → Read Char
  | [] => .error .unexpectedEnd
  | '"' :: text => .ok ('"', text)
  | '\\' :: text => .ok ('\\', text)
  | '/' :: text => .ok ('/', text)
  | 'b' :: text => .ok ('\x08', text)
  | 'f' :: text => .ok ('\x0c', text)
  | 'n' :: text => .ok ('\n', text)
  | 'r' :: text => .ok ('\r', text)
  | 't' :: text => .ok ('\t', text)
  | 'u' :: text => scanUnits text
  | _ => .error .malformed

theorem length_scanHex {text rest : List Char} {unit : Nat} (h : scanHex text = .ok (unit, rest)) :
    rest.length < text.length := by
  unfold scanHex at h
  split at h
  . split at h
    . simp only [Except.ok.injEq, Prod.mk.injEq] at h
      simp only [← h.2, List.length_cons]
      omega
    . simp at h
  . split at h <;> simp at h

theorem length_scanTrailing {text rest : List Char} {unit : Nat}
    (h : scanTrailing text = .ok (unit, rest)) : rest.length < text.length := by
  unfold scanTrailing at h
  split at h
  . simp at h
  . simp at h
  . split at h
    . simp at h
    . rename_i hhex
      have := length_scanHex hhex
      split at h
      . simp only [Except.ok.injEq, Prod.mk.injEq] at h
        simp only [← h.2, List.length_cons]
        omega
      . simp at h
  . simp at h

theorem length_scanUnits {text rest : List Char} {c : Char} (h : scanUnits text = .ok (c, rest)) :
    rest.length < text.length := by
  unfold scanUnits at h
  split at h
  . simp at h
  . rename_i hhex
    have := length_scanHex hhex
    split at h
    . simp at h
    . split at h
      . split at h
        . simp at h
        . rename_i htrailing
          have := length_scanTrailing htrailing
          simp only [Except.ok.injEq, Prod.mk.injEq] at h
          rw [← h.2]
          omega
      . simp only [Except.ok.injEq, Prod.mk.injEq] at h
        rw [← h.2]
        omega

theorem length_scanEscape {text rest : List Char} {c : Char} (h : scanEscape text = .ok (c, rest)) :
    rest.length < text.length := by
  unfold scanEscape at h
  split at h
  case h_10 => have := length_scanUnits h; simp only [List.length_cons]; omega
  all_goals simp_all

def scanString (text : List Char) : Read (List Char) :=
  go text []
where
  go (text read : List Char) : Read (List Char) :=
    match text with
    | [] => .error .unexpectedEnd
    | c :: text =>
      if c = '"' then
        .ok (read.reverse, text)
      else if c = '\\' then
        match h : scanEscape text with
        | .error error => .error error
        | .ok (c, rest) =>
          have := length_scanEscape h
          go rest (c :: read)
      else if c < ' ' then
        .error .malformed
      else
        go text (c :: read)
  termination_by text.length

end CallCountLint.Json
