import Palisade.Template.Parser
import Palisade.Markup.Escape
import Palisade.Json.Printer

/-!
# Filling templates

A template is filled with data and with the values of its functions. Whatever is filled in is
escaped, so only the template's own text can open or close a tag. A template with a field or a
function that has no value is not filled at all.
-/
namespace Palisade

namespace Template

/-- The values of functions, the newest first. -/
structure Functions where
  /-- Names with their values. -/
  entries : List (String × String)
  deriving Repr, DecidableEq

/-- No functions. -/
def Functions.empty : Functions := ⟨[]⟩

/-- Gives a function a value; an older value is hidden. -/
def Functions.insert (fs : Functions) (name value : String) : Functions :=
  ⟨(name, value) :: fs.entries⟩

/-- The value of a function. -/
def Functions.get? (fs : Functions) (name : String) : Option String := fs.entries.lookup name

/-- A function that was inserted gives its value under its name, and the others theirs. -/
@[simp] theorem Functions.get?_insert (fs : Functions) (name value other : String) :
    (fs.insert name value).get? other = if other = name then some value else fs.get? other := by
  by_cases h : other = name
  · simp [insert, get?, h]
  · simp [insert, get?, List.lookup_cons, beq_eq_false_iff_ne.2 h, h]

/-- The member at the end of a path. -/
def lookup : List String → Json → Option Json
  | [], value => some value
  | name :: path, value => (value.member? name).bind (lookup path)

/-- How a value shows: null as nothing, a text as itself, everything else as it is printed. -/
def showValue : Json → List Char
  | .null => []
  | .text s => s.toList
  | value => value.print

/-- What a part becomes. -/
def fillNode (data : Json) (fs : Functions) : Node → Except TemplateError (List Char)
  | .text markup => .ok markup
  | .function name =>
    match fs.get? name with
    | some value => .ok (Markup.escape value.toList)
    | none => .error (.unknownFunction name)
  | .field path =>
    match lookup path data with
    | some value => .ok (Markup.escape (showValue value))
    | none => .error (.missingField (String.intercalate "." path))

/-- What the parts become, one after the other; the first without a value is the error. -/
def fillNodes (data : Json) (fs : Functions) : List Node → Except TemplateError (List Char)
  | [] => .ok []
  | node :: rest =>
    match fillNode data fs node with
    | .error e => .error e
    | .ok front =>
      match fillNodes data fs rest with
      | .error e => .error e
      | .ok back => .ok (front ++ back)

/-- Fills a template. -/
def fill (t : Template) (data : Json) (fs : Functions) : Except TemplateError SafeHtml :=
  match fillNodes data fs t.nodes with
  | .error e => .error e
  | .ok markup => .ok (.trusted (String.ofList markup))

end Template

end Palisade
