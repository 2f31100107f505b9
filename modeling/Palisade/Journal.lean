import Palisade.Text.Numeral

/-!
# The journal

What happens while requests are served is recorded in order: events of the library, each with its
level, its message and its fields, and notes of applications.
-/
namespace Palisade

/-- How serious an event is. -/
inductive Level where
  | debug
  | info
  | warn
  | error
  deriving Repr, DecidableEq

/-- The name of a level. -/
def Level.name : Level → String
  | debug => "DEBUG"
  | info => "INFO"
  | warn => "WARN"
  | error => "ERROR"

/-- Something that happened. -/
structure Event where
  /-- How serious it is. -/
  level : Level
  /-- What happened. -/
  message : String
  /-- Names and values of what it happened to. -/
  details : List (String × String)
  deriving Repr, DecidableEq

/-- An event on one line. -/
def Event.display (e : Event) : String :=
  String.intercalate " " (e.level.name :: e.message :: e.details.map fun (k, v) => k ++ "=" ++ v)

/-- An entry of the journal. -/
inductive Entry where
  /-- An event of the library. -/
  | event (e : Event)
  /-- A note of an application. -/
  | note (line : String)
  deriving Repr, DecidableEq

/-- An entry on one line. -/
def Entry.display : Entry → String
  | event e => e.display
  | note line => line

/-- A truth value as a detail. -/
def showBool (b : Bool) : String := if b then "true" else "false"

end Palisade
