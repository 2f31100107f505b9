import Palisade.Markup.Tag
import Palisade.Text.Blank
import Palisade.Text.Quoted

/-!
# Actions of a template

A template is markup with actions between double braces. An action names the data, a field of it by a
path of dots and names, or a function without arguments. Blanks around an action do not count, nor do
dashes next to the braces.
-/
namespace Palisade

open Palisade.Text

/-- Why a template cannot be parsed or filled; positions count bytes from its start. -/
inductive TemplateError where
  /-- An action is not closed. -/
  | unterminated (position : Nat)
  /-- An action is neither a field nor a function. -/
  | malformed (action : String) (position : Nat)
  | unknownFunction (name : String)
  /-- The path of a field that the data lacks. -/
  | missingField (path : String)
  /-- Nothing can be inserted into the markup. -/
  | markup (error : MarkupError)
  deriving Repr, DecidableEq

/-- The message of an error. -/
def TemplateError.message : TemplateError → String
  | unterminated position => "unterminated action starting at byte " ++ showNat position
  | malformed action position =>
    "malformed action " ++ quote action ++ " at byte " ++ showNat position
  | unknownFunction name => "function " ++ quote name ++ " not defined"
  | missingField path => "field " ++ quote path ++ " missing from template data"
  | markup error => error.message

namespace Template

/-- A part of a template. -/
inductive Node where
  /-- Markup that stands for itself. -/
  | text (markup : List Char)
  /-- A field of the data by its path; the empty path is the data itself. -/
  | field (path : List String)
  /-- A function by its name. -/
  | function (name : String)
  deriving Repr, DecidableEq

/-- The first character of an identifier. -/
def isFirstChar (c : Char) : Bool := c.isAlpha || c == '_'

/-- The other characters of an identifier. -/
def isNameChar (c : Char) : Bool := c.isAlphanum || c == '_'

/-- Names of fields and functions: letters, digits and underscores, no digit first. -/
def isIdentifier : List Char → Bool
  | [] => false
  | c :: rest => isFirstChar c && rest.all isNameChar

/-- An action without the blanks and dashes at its ends. -/
def trimAction (s : List Char) : List Char := trimBlanks (trimBoth (· == '-') (trimBlanks s))

/-- What a trimmed action stands for. -/
def readAction? : List Char → Option Node
  | ['.'] => some (.field [])
  | '.' :: path =>
    let names := pieces '.' path
    if names.all isIdentifier then some (.field (names.map String.ofList)) else none
  | name => if isIdentifier name then some (.function (String.ofList name)) else none

/-- What an action stands for that starts at a position. -/
def readAction (position : Nat) (inside : List Char) : Except TemplateError Node :=
  let action := trimAction inside
  match readAction? action with
  | some node => .ok node
  | none => .error (.malformed (String.ofList action) position)

end Template

end Palisade
