import CallCountLint.Decimal.Shortest
import CallCountLint.Json.Scan

/-!
This module contains the reading of JSON numbers. A number without fraction and exponent that fits
64 bits is an integer. Every other number is a float, which is computed from as many leading digits
as fit 64 bits, scaled by a power of ten.
-/

namespace CallCountLint.Json

inductive Number where
  | integer (value : Int)
  | float (value : Float)
  deriving Repr

namespace Number

/--
Floats are written positionally from a hundred thousandth up to sixteen places.
-/
def layout : Decimal.Layout where
  least := -5
  greatest := 15

def display : Number → String
  | .integer value => "integer `" ++ toString value ++ "`"
  | .float value => "floating point `" ++ layout.writeBits value.toBits ++ "`"

end Number

def digitValue (c : Char) : Nat :=
  c.toNat - '0'.toNat

def dropDigits (text : List Char) : List Char :=
  text.dropWhile Char.isDigit

/--
The digits of a number that have been read so far: the number is `significand * 10 ^ exponent`.
-/
structure Digits where
  significand : Nat := 0
  exponent : Int := 0

namespace Digits

def extend (significand : Nat) : List Char → Nat × Nat × List Char
  | [] => (significand, 0, [])
  | c :: text =>
    let next := significand * 10 + digitValue c
    if c.isDigit ∧ next < Nat.pow 2 64 then
      let (significand, count, rest) := extend next text
      (significand, count + 1, rest)
    else
      (significand, 0, c :: text)

/--
Read the digits before the point. Those that do not fit are counted by the exponent.
-/
def scanWhole : List Char → Read Digits
  | [] => .error .unexpectedEnd
  | c :: text =>
    if c = '0' then
      if text.head?.any Char.isDigit then .error .malformed else .ok ({}, text)
    else if c.isDigit then
      let (significand, _, rest) := extend (digitValue c) text
      let after := dropDigits rest
      .ok ({ significand, exponent := rest.length - after.length }, after)
    else
      .error .malformed

/--
Read the digits after the point. Those that do not fit are left out.
-/
def scanFraction (digits : Digits) (text : List Char) : Read Digits :=
  let (significand, count, rest) := extend digits.significand text
  let after := dropDigits rest
  if count = 0 ∧ after.length = rest.length then
    if rest.isEmpty then .error .unexpectedEnd else .error .malformed
  else
    .ok ({ significand, exponent := digits.exponent - count }, after)

def scale (value : Float) (exponent : Int) : Except ScanError Float :=
  if exponent.natAbs ≤ 308 then
    if 0 ≤ exponent then
      let scaled := value * Float.ofScientific 1 false exponent.natAbs
      if scaled.isInf then .error .malformed else .ok scaled
    else
      .ok (value / Float.ofScientific 1 false exponent.natAbs)
  else if value == 0 then
    .ok value
  else if 0 ≤ exponent then
    .error .malformed
  else
    scale (value / Float.ofScientific 1 false 308) (exponent + 308)
termination_by exponent.natAbs
decreasing_by omega

def toFloat (digits : Digits) (negative : Bool) : Except ScanError Number :=
  match scale (Float.ofNat digits.significand) digits.exponent with
  | .ok value => .ok (.float (if negative then -value else value))
  | .error error => .error error

def exponentSign : List Char → Bool × List Char
  | '-' :: text => (true, text)
  | '+' :: text => (false, text)
  | text => (false, text)

/--
Read the exponent. One that needs more than 32 bits makes the number zero or too large.
-/
def scanExponent (digits : Digits) (negative : Bool) (text : List Char) : Read Number :=
  let (below, text) := exponentSign text
  if text.isEmpty then
    .error .unexpectedEnd
  else if !text.head?.any Char.isDigit then
    .error .malformed
  else
    let exponent := (text.takeWhile Char.isDigit).foldl (fun n c => n * 10 + digitValue c) 0
    let after := dropDigits text
    if Nat.pow 2 31 ≤ exponent then
      if digits.significand ≠ 0 ∧ !below then
        .error .malformed
      else
        .ok (.float (if negative then -0.0 else 0.0), after)
    else
      let exponent : Int := if below then digits.exponent - exponent else digits.exponent + exponent
      match toFloat { digits with exponent } negative with
      | .ok number => .ok (number, after)
      | .error error => .error error

def scanTail (digits : Digits) (negative : Bool) (text : List Char) : Read Number :=
  match text with
  | 'e' :: text => scanExponent digits negative text
  | 'E' :: text => scanExponent digits negative text
  | text =>
    match toFloat digits negative with
    | .ok number => .ok (number, text)
    | .error error => .error error

/--
Whether a number without fraction and exponent is an integer of 64 bits. Minus zero is not.
-/
def integer? (digits : Digits) (negative : Bool) : Option Int :=
  if digits.exponent ≠ 0 then none
  else if !negative then some digits.significand
  else if 0 < digits.significand ∧ digits.significand ≤ Nat.pow 2 63 then some (-digits.significand)
  else none

end Digits

def scanNumber (negative : Bool) (text : List Char) : Read Number :=
  match Digits.scanWhole text with
  | .error error => .error error
  | .ok (digits, '.' :: text) =>
    match digits.scanFraction text with
    | .error error => .error error
    | .ok (digits, text) => digits.scanTail negative text
  | .ok (digits, 'e' :: text) => digits.scanExponent negative text
  | .ok (digits, 'E' :: text) => digits.scanExponent negative text
  | .ok (digits, text) =>
    match digits.integer? negative with
    | some value => .ok (.integer value, text)
    | none => digits.scanTail negative text

end CallCountLint.Json
