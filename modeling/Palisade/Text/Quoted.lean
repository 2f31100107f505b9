import Palisade.Text.Printable

/-!
# Quoted text

Messages show the texts they speak of between quotation marks, with escapes for what could not be
told apart or would break the line: the quotation mark, the backslash, tab, line ends, NUL and every
character without a visible form. A second form, without the quotation marks, serves log fields. It
escapes the apostrophe as well and leaves a joining character alone unless it comes first.
-/
namespace Palisade.Text

/-- A digit of base sixteen, with small letters. -/
def hexDigit (d : Nat) : Char := if d < 10 then Char.ofNat (0x30 + d) else Char.ofNat (0x57 + d)

/-- A number in base sixteen with the fewest digits. -/
def hexadecimal (n : Nat) : List Char :=
  if n < 16 then [hexDigit n] else hexadecimal (n / 16) ++ [hexDigit (n % 16)]

/-- A character by its code point: a backslash, the letter u and the number in braces. -/
def escapeByNumber (c : Char) : List Char :=
  ['\\', 'u', '\x7b'] ++ hexadecimal c.toNat ++ ['\x7d']

/-- The escapes that have a letter, and the backslash. -/
def shortEscape? (c : Char) : Option (List Char) :=
  if c == '\x00' then some ['\\', '0']
  else if c == '\t' then some ['\\', 't']
  else if c == '\r' then some ['\\', 'r']
  else if c == '\n' then some ['\\', 'n']
  else if c == '\\' then some ['\\', '\\']
  else none

/-- A character as it stands in a quoted text. -/
def quoteChar (c : Char) : List Char :=
  match shortEscape? c with
  | some escape => escape
  | none =>
    if c == '\"' then ['\\', '\"']
    else if isExtending c || !isPrintable c then escapeByNumber c
    else [c]

/-- A text between quotation marks. -/
def quote (s : String) : String :=
  String.ofList (['\"'] ++ s.toList.flatMap quoteChar ++ ['\"'])

/-- A character as it stands in a log field; `atStart` says that nothing stands before it. -/
def fieldChar (atStart : Bool) (c : Char) : List Char :=
  match shortEscape? c with
  | some escape => escape
  | none =>
    if c == '\"' then ['\\', '\"']
    else if c == '\'' then ['\\', '\'']
    else if atStart && isExtending c then escapeByNumber c
    else if !isPrintable c then escapeByNumber c
    else [c]

/-- A text on one line of a log, without quotation marks. -/
def escapeField (s : String) : String :=
  match s.toList with
  | [] => ""
  | c :: rest => String.ofList (fieldChar true c ++ rest.flatMap (fieldChar false))

end Palisade.Text
