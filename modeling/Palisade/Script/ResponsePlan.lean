import Palisade.Json.Reader
import Palisade.Response.Rendering

/-!
# Planned responses

Responses as data: documents and templates are given by their texts and read when the response is
built.
-/
namespace Palisade

/-- A template by its text, which may get nonces and tokens before it is parsed. -/
structure TemplatePlan where
  /-- The text. -/
  source : String
  /-- What is inserted first, if anything. -/
  insertions : Option Markup.Insertions
  /-- The text of the data. -/
  data : String
  deriving Repr, DecidableEq

/-- A response by its texts. -/
inductive ResponsePlan where
  | html (markup : String)
  /-- Markup that shows a text. -/
  | escape (text : String)
  | json (document : String)
  | page (template : TemplatePlan)
  | redirect (location : String) (status : Status)
  | noContent
  | error (status : Status)
  deriving Repr, DecidableEq

/-- Why a planned response cannot be built. -/
inductive PlanError where
  | document (fault : Json.Fault)
  | template (error : TemplateError)
  deriving Repr, DecidableEq

namespace TemplatePlan

/-- The template. -/
def parse (p : TemplatePlan) : Except TemplateError Template :=
  match p.insertions with
  | some insertions => Template.parseInjected insertions p.source
  | none => Template.parse p.source

end TemplatePlan

namespace ResponsePlan

/-- Builds a response. The data of a page are read before its template. -/
def build : ResponsePlan → Except PlanError Response
  | html markup => .ok (.html (.trusted markup))
  | escape text => .ok (.html (.escape text))
  | json document =>
    match Json.readText document with
    | .ok value => .ok (.json value)
    | .error fault => .error (.document fault)
  | page plan =>
    match Json.readText plan.data with
    | .error fault => .error (.document fault)
    | .ok data =>
      match plan.parse with
      | .error e => .error (.template e)
      | .ok template => .ok (.ofTemplate template data)
  | redirect location status => .ok (.redirect location status)
  | noContent => .ok .noContent
  | error status => .ok (.error status)

end ResponsePlan

/-- A renderer that refuses every response. -/
def refuseAll : Renderer := fun response => .error (.errorStatus response.status)

end Palisade
