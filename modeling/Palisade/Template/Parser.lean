import Palisade.Template.Action
import Palisade.Markup.Inject

/-!
# Parsing templates

The text is cut at the leftmost opening braces and the leftmost closing braces after them, again and
again. What stands between actions is kept as it is, and empty text is no part.
-/
namespace Palisade

open Palisade.Text

/-- A parsed template. -/
structure Template where
  /-- Its parts in order. -/
  nodes : List Template.Node
  deriving Repr, DecidableEq

namespace Template

/-- What opens an action. -/
def opening : List Char := ['\x7b', '\x7b']

/-- What closes an action. -/
def closing : List Char := ['\x7d', '\x7d']

/-- Text as a part, unless it is empty. -/
def textNodes (s : List Char) : List Node := if s.isEmpty then [] else [.text s]

/-- The parts of a text that starts at a position. -/
def parseFrom (position : Nat) (s : List Char) : Except TemplateError (List Node) :=
  match _h : cutPattern opening s with
  | none => .ok (textNodes s)
  | some (before, after) =>
    let start := position + byteLength before
    match _h' : cutPattern closing after with
    | none => .error (.unterminated start)
    | some (inside, rest) =>
      match readAction start inside with
      | .error e => .error e
      | .ok node =>
        match parseFrom (start + byteLength opening + byteLength inside + byteLength closing)
            rest with
        | .error e => .error e
        | .ok others => .ok (textNodes before ++ node :: others)
termination_by s.length
decreasing_by
  have h1 := length_after_cutPattern (by assumption : cutPattern opening s = _) (by simp [opening])
  have h2 := length_after_cutPattern (by assumption : cutPattern closing after = _)
    (by simp [closing])
  omega

/-- Parses a template. -/
def parse (source : String) : Except TemplateError Template :=
  match parseFrom 0 source.toList with
  | .error e => .error e
  | .ok nodes => .ok ⟨nodes⟩

/-- Inserts into markup and parses the result as a template. -/
def parseInjected (insertions : Markup.Insertions) (source : String) :
    Except TemplateError Template :=
  match Markup.inject insertions source.toList with
  | .error e => .error (.markup e)
  | .ok markup => parse (String.ofList markup)

end Template

end Palisade
