import Palisade.Http.Status
import Palisade.Template.Fill

/-!
# Responses

A response says what is sent and not how it is encoded. There is no response of raw bytes with a
type of the application's choice: markup is safe markup or a template, so that text from outside
does not become markup by accident.
-/
namespace Palisade

/-- A template with its data and the values of its functions. -/
structure Page where
  /-- The template. -/
  template : Template
  /-- The data. -/
  data : Json
  /-- The values of the functions. -/
  functions : Template.Functions

/-- What a request is answered with. -/
inductive Response where
  | html (markup : SafeHtml)
  | json (value : Json)
  | page (page : Page)
  | redirect (location : String) (status : Status)
  | noContent
  | error (status : Status)

namespace Response

/-- A page without functions. -/
def ofTemplate (template : Template) (data : Json) : Response :=
  .page ⟨template, data, .empty⟩

/-- The status that a response asks for. -/
def status : Response → Status
  | html _ | json _ | page _ => .ok
  | redirect _ status => status
  | noContent => .noContent
  | error status => status

/-- Gives a function of a page a value. Other responses have no functions. -/
def addFunction (name value : String) : Response → Response
  | page p => page { p with functions := p.functions.insert name value }
  | other => other

/-- Telling a response a function leaves its status. -/
@[simp] theorem status_addFunction (name value : String) (r : Response) :
    (r.addFunction name value).status = r.status := by
  cases r <;> rfl

end Response

end Palisade
