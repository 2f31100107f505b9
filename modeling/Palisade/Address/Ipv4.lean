import Palisade.Codec.Base16
import Palisade.Text.Numeral
import Palisade.Text.Split

/-!
# Numeric addresses of four bytes

An address is written as one to four numbers with dots between them. All but the last are bytes, and
the last fills the bytes that remain. A number is hexadecimal after `0x`, octal after another zero
and decimal otherwise. The strict form has four decimal bytes without zeros in front.
-/
namespace Palisade.Ipv4

open Palisade.Text

/-- The value of digits in a base, which continue a number. -/
def valueFrom (base start : Nat) : List Char → Option Nat
  | [] => some start
  | c :: rest => do
    let d ← Base16.value? c
    if d < base then valueFrom base (start * base + d) rest else none

/-- The value of digits in a base. At least one is required. -/
def value? (base : Nat) (s : List Char) : Option Nat :=
  if s.isEmpty then none else valueFrom base 0 s

/-- Reads one number. -/
def readNumber? : List Char → Option Nat
  | '0' :: 'x' :: digits | '0' :: 'X' :: digits => value? 16 digits
  | '0' :: digits => valueFrom 8 0 digits
  | digits => value? 10 digits

/-- Puts numbers together that have room for `room` bytes. The last takes all that is left. -/
def combine? : Nat → List Nat → Option Nat
  | 0, _ => none
  | room + 1, [last] => if last < Nat.pow 256 (room + 1) then some last else none
  | room + 1, byte :: rest => do
    let others ← combine? room rest
    if byte < 256 then some (byte * Nat.pow 256 room + others) else none
  | _ + 1, [] => none

/-- Reads an address. -/
def read? (s : List Char) : Option Nat := do
  let numbers ← (pieces '.' s).mapM readNumber?
  combine? 4 numbers

/-- Reads one byte in its strict form. -/
def readByte? (s : List Char) : Option Nat :=
  ((readDigits? s).filter (· < 256)).filter fun n => s = decimal n

/-- Reads an address in its strict form, as its four bytes. -/
def readStrict? (s : List Char) : Option (List Nat) :=
  ((pieces '.' s).mapM readByte?).filter (·.length = 4)

end Palisade.Ipv4
