import Palisade.Http.Urlencoded
import Palisade.Text.Quoted
import Palisade.Decimal.Binary64

/-!
# Submitted forms

The decoded fields of a form. A field may repeat; what asks for one value gets the first. Typed
access reads a value with a reader of the type and names the field and the value it cannot read.
-/
namespace Palisade

/-- Why a form or a field of it cannot be read. -/
inductive FormError where
  /-- The request says that its body is something else. -/
  | unsupportedContentType (contentType : String)
  /-- The body is not UTF-8. -/
  | encoding
  /-- A value is none of the type asked for. -/
  | invalidValue (field value : String)
  deriving Repr, DecidableEq

/-- The message of an error. -/
def FormError.message : FormError → String
  | unsupportedContentType contentType =>
    "unsupported content type for form parsing: " ++ Text.quote contentType
  | encoding => "form body is not valid UTF-8"
  | invalidValue field value =>
    "form field " ++ Text.quote field ++ " has invalid value " ++ Text.quote value

/-- A submitted form. -/
structure Form where
  /-- The decoded fields, in order. -/
  params : Params

namespace Form

/-- The first value of a field. -/
def string? (f : Form) (name : String) : Option String := f.params.get? name

/-- Every value of a field. -/
def strings (f : Form) (name : String) : List String := f.params.getAll name

/-- Whether a field occurs. -/
def contains (f : Form) (name : String) : Bool := f.params.contains name

/-- Reads one value of a field. -/
def readValue {α : Type} (read : String → Option α) (name value : String) : Except FormError α :=
  match read value with
  | some x => .ok x
  | none => .error (.invalidValue name value)

/-- The first value of a field, read as a type. A missing field is no error. -/
def get {α : Type} (read : String → Option α) (f : Form) (name : String) :
    Except FormError (Option α) :=
  match f.string? name with
  | none => .ok none
  | some value => (readValue read name value).map some

/-- Every value of a field, read as a type. The first that cannot be read is the error. -/
def getAll {α : Type} (read : String → Option α) (f : Form) (name : String) :
    Except FormError (List α) :=
  (f.strings name).mapM (readValue read name)

/-- Reads a whole number of so many bits, with a sign. -/
def readSigned (bits : Nat) : String → Option Int :=
  Text.readInt? (-(Nat.pow 2 (bits - 1) : Nat)) ((Nat.pow 2 (bits - 1) - 1 : Nat))

/-- Reads a whole number of so many bits, without a minus sign. -/
def readUnsigned (bits : Nat) : String → Option Nat := Text.readNat? (Nat.pow 2 bits - 1)

/-- Reads a truth value. -/
def readBool (s : String) : Option Bool :=
  if s = "true" then some true else if s = "false" then some false else none

/-- Reads a single character. -/
def readChar (s : String) : Option Char :=
  match s.toList with
  | [c] => some c
  | _ => none

/-- Reads a 64-bit fraction and gives its bits. -/
def readFraction : String → Option Nat := Decimal.readBits?

end Form

end Palisade
