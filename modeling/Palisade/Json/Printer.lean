import Palisade.Json.Basic
import Palisade.Decimal.Shortest

/-!
# Printing JSON

A value is printed without blanks, the members of an object in the order of their keys. Fractions
have the fewest digits that read back: positional from `0.00001` up to below ten quadrillions,
with a place after the point in any case, and scientific outside.
-/
namespace Palisade.Json

open Palisade.Text Palisade.Decimal

/-- The character of a text as it stands between quotation marks. -/
def escapeChar (c : Char) : List Char :=
  if c == '\"' then ['\\', '\"']
  else if c == '\\' then ['\\', '\\']
  else if c == '\x08' then ['\\', 'b']
  else if c == '\t' then ['\\', 't']
  else if c == '\n' then ['\\', 'n']
  else if c == '\x0c' then ['\\', 'f']
  else if c == '\r' then ['\\', 'r']
  else if c.toNat < 0x20 then
    ['\\', 'u', '0', '0', hexDigit (c.toNat / 16), hexDigit (c.toNat % 16)]
  else [c]

/-- A text between quotation marks. -/
def printText (s : String) : List Char := ['\"'] ++ s.toList.flatMap escapeChar ++ ['\"']

/-- A positive decimal, digits times a power of ten. -/
def printDecimal (digits : Nat) (exponent : Int) : List Char :=
  let figures := decimal digits
  let point : Int := figures.length + exponent
  if 0 ≤ exponent ∧ point ≤ 16 then
    figures ++ List.replicate exponent.toNat '0' ++ ['.', '0']
  else if 0 < point ∧ point ≤ 16 then
    figures.take point.toNat ++ ['.'] ++ figures.drop point.toNat
  else if -5 < point ∧ point ≤ 0 then
    ['0', '.'] ++ List.replicate (-point).toNat '0' ++ figures
  else
    let places := figures.drop 1
    let mantissa := figures.take 1 ++ (if places.isEmpty then [] else '.' :: places)
    let power := point - 1
    mantissa ++ ['e', if power < 0 then '-' else '+'] ++ decimal power.natAbs

/-- A finite fraction by its bits. -/
def printFraction (bits : Nat) : List Char :=
  let sign := if bits < signBit then [] else ['-']
  let size := bits % signBit
  if size = 0 then sign ++ ['0', '.', '0']
  else
    let (digits, exponent) := shortest size
    sign ++ printDecimal digits exponent

/-- A number. -/
def Number.print : Number → List Char
  | .whole n => decimal n
  | .negative n => '-' :: decimal (n + 1)
  | .fraction bits => printFraction bits

mutual

/-- A value without blanks. -/
def print : Json → List Char
  | .null => "null".toList
  | .bool true => "true".toList
  | .bool false => "false".toList
  | .number n => n.print
  | .text s => printText s
  | .list items => ['['] ++ printItems items ++ [']']
  | .object members => ['\x7b'] ++ printMembers members ++ ['\x7d']

/-- The items of a list, with commas between them. -/
def printItems : List Json → List Char
  | [] => []
  | [item] => print item
  | item :: next :: rest => print item ++ [','] ++ printItems (next :: rest)

/-- The members of an object, with commas between them. -/
def printMembers : List (String × Json) → List Char
  | [] => []
  | [(key, value)] => printText key ++ [':'] ++ print value
  | (key, value) :: next :: rest =>
    printText key ++ [':'] ++ print value ++ [','] ++ printMembers (next :: rest)

end

/-- The text of a value without blanks. -/
def compact (value : Json) : String := String.ofList (print value)

end Palisade.Json
