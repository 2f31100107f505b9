import Palisade.Journal
import Palisade.Text.Split
import Palisade.Text.Utf8

/-!
# Trusted SQL

SQL text that was written by the application's author: literals, whole numbers, and what is put
together from those. Text from outside never becomes SQL, except through an escape that is recorded
each time.
-/
namespace Palisade

open Palisade.Text

/-- SQL text without input from outside. -/
structure TrustedSql where
  /-- The text. -/
  text : String
  deriving Repr, DecidableEq

namespace TrustedSql

/-- A literal. -/
def literal (sql : String) : TrustedSql := ⟨sql⟩

/-- A whole number. -/
def ofInt (n : Int) : TrustedSql := ⟨showInt n⟩

/-- Pieces one after the other. -/
def concat (parts : List TrustedSql) : TrustedSql := ⟨String.join (parts.map (·.text))⟩

/-- Pieces with a separator between them. -/
def join (parts : List TrustedSql) (separator : TrustedSql) : TrustedSql :=
  ⟨String.intercalate separator.text (parts.map (·.text))⟩

/-- The pieces between the leftmost occurrences of a pattern. -/
def splitAt (pattern : List Char) (h : pattern ≠ []) (s : List Char) : List (List Char) :=
  match _h : cutPattern pattern s with
  | none => [s]
  | some (before, after) => before :: splitAt pattern h after
termination_by s.length
decreasing_by exact length_after_cutPattern (by assumption) h

/-- The pieces between separators. The empty separator stands before, between and after all
characters. -/
def splitText (separator s : List Char) : List (List Char) :=
  if h : separator = [] then [[]] ++ s.map (fun c => [c]) ++ [[]] else splitAt separator h s

/-- The pieces between separators. -/
def split (sql separator : TrustedSql) : List TrustedSql :=
  (splitText separator.text.toList sql.text.toList).map fun s => ⟨String.ofList s⟩

/-- Whether there is no text. -/
def isEmpty (sql : TrustedSql) : Bool := sql.text.isEmpty

/-- A text that nobody vouches for, and the event that records it. -/
def unchecked (sql : String) : TrustedSql × Event :=
  (⟨sql⟩, ⟨.warn, "building TrustedSql from an unchecked string", [("sql", sql)]⟩)

end TrustedSql

end Palisade
