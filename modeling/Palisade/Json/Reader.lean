import Palisade.Json.Fault
import Palisade.Decimal.Binary64
import Palisade.Text.Utf8

/-!
# Reading JSON

A reader takes what it needs from the front of the bytes and leaves the rest; the first fault it
meets is the answer. Numbers that sixty-four bits hold stay whole, all others become fractions: the
digits that fit are taken as one fraction and scaled by a power of ten, so the last bit may differ
from the nearest fraction. Lists and objects nest up to 127 deep. Positions of faults are not kept.
-/
namespace Palisade.Json

open Palisade.Text Palisade.Decimal

/-- Takes bytes from the front and gives a value, or a fault. -/
abbrev Reader := StateT Bytes (Except Fault)

namespace Reader

/-- The byte at the front, as the character with its code. -/
def look : Reader (Option Char) := do
  return (← get).head?.map fun b => Char.ofNat b.toNat

/-- Drops the byte at the front. -/
def next : Reader Unit := modify (List.drop 1)

/-- Blanks between tokens. -/
def isGap (b : UInt8) : Bool :=
  b.toNat == 0x20 || b.toNat == 0x0A || b.toNat == 0x09 || b.toNat == 0x0D

/-- Drops the blanks at the front and gives the byte after them. -/
def lookPast : Reader (Option Char) := do
  modify (List.dropWhile isGap)
  look

/-- The byte at the front of a token that must be there. -/
def lookPastOr (fault : Fault) : Reader Char := do
  match ← lookPast with
  | some c => return c
  | none => throw fault

/-- Takes the letters of a word one after the other. -/
def word : List Char → Reader Unit
  | [] => pure ()
  | expected :: rest => do
    match ← look with
    | none => throw .endInValue
    | some c =>
      if c == expected then do
        next
        word rest
      else throw .expectedWord

/-! ### Numbers -/

/-- Whether a byte is a decimal digit. -/
def isDigitByte (b : UInt8) : Bool := 0x30 ≤ b.toNat && b.toNat ≤ 0x39

/-- Takes the digits at the front. -/
def digits : Reader (List Nat) := do
  let found := (← get).takeWhile isDigitByte
  modify (List.dropWhile isDigitByte)
  return found.map fun b => b.toNat - 0x30

/-- Appends digits to a number as long as it stays within sixty-four bits; gives the number and the
digits left over. -/
def absorb (value : Nat) : List Nat → Nat × List Nat
  | [] => (value, [])
  | d :: rest =>
    if value * 10 + d ≤ largest64 then absorb (value * 10 + d) rest else (value, d :: rest)

/-- The fraction nearest to a whole number. -/
def wholeFraction (n : Nat) : Float := Float.ofBits (UInt64.ofNat (ofDecimal n 0))

/-- The fraction nearest to a power of ten. -/
def powerOfTen (n : Nat) : Float := Float.ofBits (UInt64.ofNat (ofDecimal 1 n))

/-- Divides a fraction by a power of ten, at most 308 places at a time. -/
def divideByPower (f : Float) (places : Nat) : Float :=
  if places ≤ 308 then f / powerOfTen places
  else if f == 0 then f
  else divideByPower (f / powerOfTen 308) (places - 308)
termination_by places

/-- A fraction from its digits and a power of ten. -/
def scaled (negative : Bool) (value : Nat) (exponent : Int) : Reader Number := do
  let f := wholeFraction value
  let size ←
    if exponent < 0 then pure (divideByPower f (-exponent).toNat)
    else if 308 < exponent then
      if value = 0 then pure f else throw .numberTooLarge
    else
      let product := f * powerOfTen exponent.toNat
      if product.isInf then throw .numberTooLarge else pure product
  return .fraction (size.toBits.toNat + if negative then signBit else 0)

/-- The exponent part, its letter not yet taken. An exponent beyond thirty-one bits leaves nothing but
zero or too much. -/
def exponentPart (negative : Bool) (value : Nat) (start : Int) : Reader Number := do
  next
  let sign ← look
  let rising := sign != some '-'
  if sign == some '+' || sign == some '-' then next
  match ← look with
  | none => throw .endInValue
  | some c =>
    if !c.isDigit then throw .badNumber
    else
      let power : Nat := (← digits).foldl (fun n d => n * 10 + d) 0
      let exponent : Int := if rising then start + power else start - power
      if Nat.pow 2 31 ≤ power then
        if value != 0 && rising then throw .numberTooLarge
        else return .fraction (if negative then signBit else 0)
      else scaled negative value exponent

/-- The places after the point, the point not yet taken. -/
def placesPart (negative : Bool) (value : Nat) (start : Int) : Reader Number := do
  next
  let places ← digits
  let (value, left) := absorb value places
  if places.isEmpty then
    match ← look with
    | some _ => throw .badNumber
    | none => throw .endInValue
  else
    let exponent := start - (places.length - left.length : Nat)
    match ← look with
    | some 'e' | some 'E' => exponentPart negative value exponent
    | _ => scaled negative value exponent

/-- What follows the whole part of a number. -/
def numberTail (negative : Bool) (value : Nat) (left : List Nat) : Reader Number := do
  match ← look with
  | some '.' => placesPart negative value left.length
  | some 'e' | some 'E' => exponentPart negative value left.length
  | _ =>
    if !left.isEmpty then scaled negative value left.length
    else if !negative then return .whole value
    else if 0 < value ∧ value ≤ Nat.pow 2 63 then return .negative (value - 1)
    else scaled true value 0

/-- A number after its minus sign, if it has one. -/
def unsignedNumber (negative : Bool) : Reader Number := do
  match ← look with
  | none => throw .endInValue
  | some '0' => do
    next
    match ← look with
    | some c => if c.isDigit then throw .badNumber else numberTail negative 0 []
    | none => numberTail negative 0 []
  | some c =>
    if c.isDigit then
      let (value, left) := absorb 0 (← digits)
      numberTail negative value left
    else throw .badNumber

/-- A number, beginning with a minus sign or a digit. -/
def number : Reader Number := do
  if (← look) == some '-' then
    next
    unsignedNumber true
  else unsignedNumber false

/-! ### Texts -/

/-- The value of a digit of base sixteen. -/
def hexValue? (b : UInt8) : Option Nat :=
  let n := b.toNat
  if 0x30 ≤ n ∧ n ≤ 0x39 then some (n - 0x30)
  else if 0x41 ≤ n ∧ n ≤ 0x46 then some (n - 0x37)
  else if 0x61 ≤ n ∧ n ≤ 0x66 then some (n - 0x57)
  else none

/-- Four digits of base sixteen. -/
def hexUnit : Reader Nat := do
  match ← get with
  | a :: b :: c :: d :: rest =>
    set rest
    match hexValue? a, hexValue? b, hexValue? c, hexValue? d with
    | some a, some b, some c, some d => return ((a * 16 + b) * 16 + c) * 16 + d
    | _, _, _, _ => throw .badEscape
  | _ => throw .endInText

/-- Takes one byte of a pair's second half, which must be the given one. -/
def pairMark (mark : Char) : Reader Unit := do
  match ← look with
  | none => throw .endInText
  | some c => if c == mark then next else throw .halfPair

/-- A code point by number, the letter u taken. Code points of the upper planes are two units. -/
def numberedEscape : Reader Char := do
  let first ← hexUnit
  if 0xDC00 ≤ first ∧ first ≤ 0xDFFF then throw .loneSurrogate
  else if first < 0xD800 ∨ 0xDBFF < first then return Char.ofNat first
  else do
    pairMark '\\'
    pairMark 'u'
    let second ← hexUnit
    if second < 0xDC00 ∨ 0xDFFF < second then throw .loneSurrogate
    else return Char.ofNat ((first - 0xD800) * 1024 + (second - 0xDC00) + 0x10000)

/-- The character that a letter after a backslash stands for. -/
def letterEscape? (c : Char) : Option Char :=
  if c == '\"' || c == '\\' || c == '/' then some c
  else if c == 'b' then some '\x08'
  else if c == 'f' then some '\x0c'
  else if c == 'n' then some '\n'
  else if c == 'r' then some '\r'
  else if c == 't' then some '\t'
  else none

/-- The character of an escape, its backslash taken. -/
def escape : Reader Char := do
  match ← look with
  | none => throw .endInText
  | some 'u' => do
    next
    numberedEscape
  | some c =>
    match letterEscape? c with
    | some meant => do
      next
      return meant
    | none => throw .badEscape

/-- The bytes of a text up to its closing quotation mark. `fuel` bounds the steps. -/
def textBytes : Nat → Reader Bytes
  | 0 => throw .endInText
  | fuel + 1 => do
    match ← get with
    | [] => throw .endInText
    | b :: rest =>
      let c := Char.ofNat b.toNat
      if c == '\"' then do
        set rest
        return []
      else if c == '\\' then do
        set rest
        let meant ← escape
        return encodeChar meant ++ (← textBytes fuel)
      else if b.toNat < 0x20 then throw .controlInText
      else do
        set rest
        return b :: (← textBytes fuel)

/-- A text, its opening quotation mark taken. -/
def textBody : Reader String := do
  match ofUtf8? (← textBytes (1 + (← get).length)) with
  | some s => return s
  | none => throw .badCodePoint

/-! ### Lists, objects and values -/

/-- Whether another item of a list follows; takes the comma before it. -/
def moreItems (atStart : Bool) : Reader Bool := do
  match ← lookPastOr .endInList with
  | ']' => return false
  | c =>
    if atStart then return true
    else if c == ',' then do
      next
      match ← lookPastOr .endInValue with
      | ']' => throw .trailingComma
      | _ => return true
    else throw .expectedListComma

/-- The items of a list up to its end. `fuel` bounds their number. -/
def items {α : Type} (item : Reader α) : Nat → Bool → Reader (List α)
  | 0, _ => throw .endInList
  | fuel + 1, atStart => do
    if ← moreItems atStart then do
      let first ← item
      return first :: (← items item fuel false)
    else do
      next
      return []

/-- A list, its bracket taken. -/
def listBody {α : Type} (item : Reader α) : Reader (List α) := do
  items item (1 + (← get).length) true

/-- Whether another member of an object follows; takes the comma before it. -/
def moreMembers (atStart : Bool) : Reader Bool := do
  match ← lookPastOr .endInObject with
  | '\x7d' => return false
  | c =>
    if atStart then
      if c == '\"' then return true else throw .keyNotText
    else if c == ',' then do
      next
      match ← lookPastOr .endInValue with
      | '\"' => return true
      | '\x7d' => throw .trailingComma
      | _ => throw .keyNotText
    else throw .expectedObjectComma

/-- The colon after a key. -/
def colon : Reader Unit := do
  match ← lookPastOr .endInObject with
  | ':' => next
  | _ => throw .expectedColon

/-- The members of an object up to its end. `fuel` bounds their number. -/
def members {α : Type} (item : Reader α) : Nat → Bool → Reader (List (String × α))
  | 0, _ => throw .endInObject
  | fuel + 1, atStart => do
    if ← moreMembers atStart then do
      next
      let key ← textBody
      colon
      let value ← item
      return (key, value) :: (← members item fuel false)
    else do
      next
      return []

/-- An object, its brace taken. -/
def objectBody {α : Type} (item : Reader α) : Reader (List (String × α)) := do
  members item (1 + (← get).length) true

/-- A value; lists and objects may nest less deep than `depth`. -/
def value : Nat → Reader Json
  | 0 => throw .tooDeep
  | depth + 1 => do
    match ← lookPastOr .endInValue with
    | 'n' => do
      word "null".toList
      return .null
    | 't' => do
      word "true".toList
      return .bool true
    | 'f' => do
      word "false".toList
      return .bool false
    | '\"' => do
      next
      return .text (← textBody)
    | '[' => do
      if depth = 0 then throw .tooDeep
      next
      return .list (← listBody (value depth))
    | '\x7b' => do
      if depth = 0 then throw .tooDeep
      next
      return .ofMembers (← objectBody (value depth))
    | c =>
      if c == '-' || c.isDigit then return .number (← number) else throw .expectedValue

/-- Nothing but blanks is left. -/
def finish : Reader Unit := do
  match ← lookPast with
  | none => pure ()
  | some _ => throw .trailingText

end Reader

/-- How deep the values of a document may nest, counting the document itself. -/
def depthLimit : Nat := 128

/-- Reads a whole document with a reader. -/
def readWith {α : Type} (reader : Reader α) (document : Bytes) : Except Fault α := do
  let whole : Reader α := do
    let result ← reader
    Reader.finish
    return result
  return (← whole.run document).1

/-- Reads a document that holds one value. -/
def read (document : Bytes) : Except Fault Json := readWith (Reader.value depthLimit) document

/-- Reads a text that holds one value. -/
def readText (document : String) : Except Fault Json := read (utf8 document)

end Palisade.Json
