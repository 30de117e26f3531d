/-!
This module contains the choice of the shortest decimal for a binary64 number: of all decimals that
are closer to it than to any other such number, one with the fewest digits, and of those the
nearest. All comparisons are exact.
-/

namespace CallCountLint

/--
The number `digits * 10 ^ exponent`.
-/
structure Decimal where
  digits : Nat
  exponent : Int
  deriving DecidableEq, Repr

namespace Decimal

/--
A binary64 number without its sign, `mantissa * 2 ^ exponent`.
-/
structure Binary where
  mantissa : Nat
  exponent : Int
  /-- The next number below is only half as far away as the next number above. -/
  narrow : Bool
  deriving DecidableEq, Repr

namespace Binary

def ofBits (bits : UInt64) : Binary :=
  let fraction : Nat := bits.toNat % Nat.pow 2 52
  let scale : Nat := bits.toNat / Nat.pow 2 52 % Nat.pow 2 11
  if scale = 0 then
    { mantissa := fraction, exponent := -1074, narrow := false }
  else
    { mantissa := Nat.pow 2 52 + fraction
      exponent := scale - 1075
      narrow := fraction = 0 ∧ 1 < scale }

def compareWith (m : Nat) (e : Int) (decimal : Decimal) : Ordering :=
  compare (m * Nat.pow 2 e.toNat * Nat.pow 10 (-decimal.exponent).toNat)
    (decimal.digits * Nat.pow 10 decimal.exponent.toNat * Nat.pow 2 (-e).toNat)

/--
Whether a decimal is read as this number. The halfway points to the neighbours belong to it if its
mantissa is even.
-/
def isReadFrom (number : Binary) (decimal : Decimal) : Bool :=
  let quarter := number.exponent - 2
  let low := 4 * number.mantissa - (if number.narrow then 1 else 2)
  let high := 4 * number.mantissa + 2
  let even := number.mantissa % 2 == 0
  let above := compareWith low quarter decimal
  let below := compareWith high quarter decimal
  (above == .lt || even && above == .eq) && (below == .gt || even && below == .eq)

/--
The number of places that the integral part of a positive number has; for a number below one, minus
the number of zeros after the point.
-/
def places (number : Binary) : Int :=
  let low := (Nat.log2 number.mantissa + number.exponent) * 30103 / 100000
  let isBelow (power : Int) : Bool :=
    compareWith number.mantissa number.exponent { digits := 1, exponent := power } == .lt
  if isBelow low then low else if isBelow (low + 1) then low + 1 else low + 2

def neighbours (number : Binary) (exponent : Int) : Decimal × Decimal :=
  let numerator :=
    number.mantissa * Nat.pow 2 number.exponent.toNat * Nat.pow 10 (-exponent).toNat
  let denominator := Nat.pow 2 (-number.exponent).toNat * Nat.pow 10 exponent.toNat
  let digits := numerator / denominator
  ({ digits, exponent }, { digits := digits + 1, exponent })

/--
The decimal with the given exponent that is read as the number, and the nearer one if there are two.
If both are equally near, it is the one with the even last digit.
-/
def onGrid? (number : Binary) (exponent : Int) : Option Decimal :=
  let (low, high) := number.neighbours exponent
  match number.isReadFrom low, number.isReadFrom high with
  | false, false => none
  | true, false => some low
  | false, true => some high
  | true, true =>
    let middle : Decimal := { digits := 10 * low.digits + 5, exponent := exponent - 1 }
    match compareWith number.mantissa number.exponent middle with
    | .lt => some low
    | .gt => some high
    | .eq => some (if low.digits % 2 = 0 then low else high)

def toDecimal (number : Binary) : Decimal where
  digits := number.mantissa * Nat.pow 2 number.exponent.toNat * Nat.pow 5 (-number.exponent).toNat
  exponent := -(-number.exponent).toNat

end Binary

def trim (decimal : Decimal) : Decimal :=
  if 0 < decimal.digits ∧ decimal.digits % 10 = 0 then
    trim { digits := decimal.digits / 10, exponent := decimal.exponent + 1 }
  else
    decimal
termination_by decimal.digits
decreasing_by omega

/--
The shortest decimal that is read as a positive number. Seventeen digits are always enough.
-/
def Binary.shortest (number : Binary) : Decimal :=
  let places := number.places
  let found := (List.range 17).findSome? fun (length : Nat) =>
    number.onGrid? (places - (length + 1 : Nat))
  (found.getD number.toDecimal).trim

/--
How a number is written: positionally if the exponent of its leading digit is at least `least` and
at most `greatest`, and else with an exponent.
-/
structure Layout where
  least : Int
  greatest : Int

namespace Layout

def exponentText (exponent : Int) : String :=
  if exponent < 0 then "e-" ++ toString exponent.natAbs else "e+" ++ toString exponent.natAbs

/--
The text of a positive decimal. A positional text has at least one digit on both sides of the point.
-/
def write (layout : Layout) (decimal : Decimal) : String :=
  let digits := (toString decimal.digits).toList
  let leading := digits.length - 1 + decimal.exponent
  if layout.least ≤ leading ∧ leading ≤ layout.greatest then
    if 0 ≤ decimal.exponent then
      String.ofList (digits ++ List.replicate decimal.exponent.toNat '0' ++ ['.', '0'])
    else if 0 ≤ leading then
      let whole := leading.toNat + 1
      String.ofList (digits.take whole ++ '.' :: digits.drop whole)
    else
      String.ofList ('0' :: '.' :: List.replicate ((-leading).toNat - 1) '0' ++ digits)
  else
    let fraction := digits.drop 1
    let point := if fraction.isEmpty then [] else ['.']
    String.ofList (digits.take 1 ++ point ++ fraction) ++ exponentText leading

def writeBits (layout : Layout) (bits : UInt64) : String :=
  let sign := if Nat.pow 2 63 ≤ bits.toNat then "-" else ""
  let number := Binary.ofBits bits
  if number.mantissa = 0 then sign ++ "0.0" else sign ++ layout.write number.shortest

end Layout

end Decimal

end CallCountLint
