import Palisade.Text.Ascii
import Palisade.Text.Numeral
import Palisade.Text.Split

/-!
# Names of hosts

A name is a list of labels with dots between them, and one dot may end it. A backslash takes the
special sense from the character behind it, or stands with three decimal digits for a character by
its number. Labels have letters, digits, dashes and underscores, and no dash stands first.
-/
namespace Palisade.HostName

open Palisade.Text

/-- The longest label. -/
def maxLabel : Nat := 63

/-- The most bytes of a name, where each label is stored behind its length and an empty one ends
the list. -/
def maxSize : Nat := 255

/-- A character of a name as it is written. -/
inductive Sign where
  /-- A dot between labels. -/
  | dot
  /-- A character of a label. -/
  | letter (c : Char)
  deriving Repr, DecidableEq

/-- Reads the characters of a name. -/
def signs? : List Char → Option (List Sign)
  | [] => some []
  | '\\' :: a :: rest =>
    if a.isDigit then
      match rest with
      | b :: c :: rest =>
        match readDigits? [a, b, c] with
        | some n => if n < 256 then (signs? rest).map (.letter (Char.ofNat n) :: ·) else none
        | none => none
      | _ => none
    else (signs? rest).map (.letter a :: ·)
  | c :: rest =>
    if c = '\\' then none
    else (signs? rest).map ((if c = '.' then .dot else .letter c) :: ·)

/-- Whether a character may stand in a label. -/
def Sign.isLetter : Sign → Bool
  | dot => false
  | letter c => c.isAlphanum || c == '-' || c == '_'

/-- Whether signs are a label. -/
def isLabel (s : List Sign) : Bool :=
  !s.isEmpty && decide (s.length ≤ maxLabel) && s.all Sign.isLetter

/-- The labels of a name without the dot that may end it; a dot alone has none. -/
def labels (s : List Sign) : List (List Sign) :=
  if s = [.dot] then []
  else pieces .dot (if s.getLast? = some .dot then s.dropLast else s)

/-- The bytes that labels take. -/
def size (ls : List (List Sign)) : Nat := (ls.map fun l => l.length + 1).foldr (· + ·) 1

/-- Whether signs are a name. -/
def isSigned (s : List Sign) : Bool :=
  !s.isEmpty && s.head? != some (.letter '-') && (labels s).all isLabel &&
    decide (size (labels s) ≤ maxSize)

/-- Whether a text is a name. -/
def isValid (s : List Char) : Bool := ((signs? s).map isSigned).getD false

/-- The names that every machine knows. -/
def known : List String := ["localhost"]

/-- Whether a machine knows a name itself. -/
def isKnown (s : List Char) : Bool := known.any fun n => alike n (String.ofList s)

end Palisade.HostName
