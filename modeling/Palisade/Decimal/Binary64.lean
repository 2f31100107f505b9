import Palisade.Text.Numeral

/-!
# Reading a decimal as a binary fraction

A 64-bit binary fraction is given by its bits: sign, eleven bits of exponent, fifty-two of
significand. A decimal is rounded to the nearest of them, and a tie goes to the even significand.
The arithmetic is exact on natural numbers until the one rounding at the end. Operations on such
fractions are not covered.
-/
namespace Palisade.Decimal

open Palisade.Text

/-- The nearest whole number to a quotient; a tie goes to the even one. -/
def roundQuotient (numerator denominator : Nat) : Nat :=
  let whole := numerator / denominator
  let twice := 2 * (numerator % denominator)
  if twice < denominator then whole
  else if denominator < twice then whole + 1
  else if whole % 2 = 0 then whole else whole + 1

/-- The bits of positive infinity. -/
def infinityBits : Nat := 0x7FF0000000000000

/-- The bits of a quiet value that is no number. -/
def nanBits : Nat := 0x7FF8000000000000

/-- The bit of the sign. -/
def signBit : Nat := Nat.pow 2 63

/-- The exponent of the last place of the fraction nearest to a positive quotient, at least that of the
least fraction. The quotient of the two leading powers is right or one too large. -/
def lastPlace (numerator denominator : Nat) : Int :=
  let guess : Int := (numerator.log2 : Int) - denominator.log2 - 52
  let tooLarge :=
    if 0 ≤ guess then numerator < denominator * Nat.pow 2 (guess.toNat + 52)
    else numerator * Nat.pow 2 (-guess).toNat < denominator * Nat.pow 2 52
  max (-1074) (if tooLarge then guess - 1 else guess)

/-- The bits of the fraction nearest to a quotient. Too large a quotient gives infinity. The leading bit
of the significand adds one to the exponent field of a normal fraction. -/
def nearestBits (numerator denominator : Nat) : Nat :=
  if numerator = 0 then 0
  else
    let place := lastPlace numerator denominator
    let significand :=
      if 0 ≤ place then roundQuotient numerator (denominator * Nat.pow 2 place.toNat)
      else roundQuotient (numerator * Nat.pow 2 (-place).toNat) denominator
    min infinityBits ((place + 1074).toNat * Nat.pow 2 52 + significand)

/-- The bits of the fraction nearest to `digits` times a power of ten. -/
def ofDecimal (digits : Nat) (exponent : Int) : Nat :=
  let magnitude := exponent + (decimal digits).length
  if digits = 0 then 0
  else if 310 < magnitude then infinityBits
  else if magnitude < -326 then 0
  else if 0 ≤ exponent then nearestBits (digits * Nat.pow 10 exponent.toNat) 1
  else nearestBits digits (Nat.pow 10 (-exponent).toNat)

/-- The words for values that are no decimals, in any case. -/
def readWord? (s : List Char) : Option Nat :=
  let small := s.map Char.toLower
  if small == "inf".toList || small == "infinity".toList then some infinityBits
  else if small == "nan".toList then some nanBits
  else none

/-- Reads the exponent part: nothing, or the letter E, a sign or none, and digits. -/
def readExponent? : List Char → Option Int
  | [] => some 0
  | e :: rest =>
    if e == 'e' || e == 'E' then
      match rest with
      | '-' :: digits => (readDigits? digits).map fun n => -Int.ofNat n
      | '+' :: digits => (readDigits? digits).map Int.ofNat
      | digits => (readDigits? digits).map Int.ofNat
    else none

/-- Whether a character is a decimal digit. -/
def isDigit (c : Char) : Bool := (digitValue? c).isSome

/-- Reads digits with or without a point, then an exponent or none. A digit must stand on one side
of the point. -/
def readPlain? (s : List Char) : Option Nat := do
  let whole := s.takeWhile isDigit
  let rest := s.dropWhile isDigit
  let (places, tail) := match rest with
    | '.' :: r => (r.takeWhile isDigit, r.dropWhile isDigit)
    | r => ([], r)
  let digits ← readDigits? (whole ++ places)
  let exponent ← readExponent? tail
  pure (ofDecimal digits (exponent - places.length))

/-- Reads a decimal, infinity or a value that is no number, after a sign or none, and gives the bits
of the nearest fraction. -/
def readBits? (s : String) : Option Nat :=
  let unsigned (r : List Char) : Option Nat := (readPlain? r).or (readWord? r)
  match s.toList with
  | '-' :: r => (unsigned r).map (signBit + ·)
  | '+' :: r => unsigned r
  | r => unsigned r

end Palisade.Decimal
