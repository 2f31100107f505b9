import Palisade.Response.Basic

/-!
# Rendering responses

A renderer turns a response into a status, a type, a location and a body, or refuses it. The
standard renderer refuses redirects that are none or lead to a place that is not on the web, errors
that are none, and pages that cannot be filled. JSON begins with text that keeps it from being run as
a script.
-/
namespace Palisade

open Palisade.Text

/-- A response after rendering. -/
structure Rendering where
  /-- The status. -/
  status : Status
  /-- The type of the body. -/
  contentType : Option String
  /-- Where a redirect leads. -/
  location : Option String
  /-- The body. -/
  body : Bytes
  deriving Repr, DecidableEq

/-- Why a response is not rendered. -/
inductive RenderError where
  /-- The page cannot be filled. -/
  | page (error : TemplateError)
  /-- A redirect with a status that is no redirection. -/
  | redirectStatus (status : Status)
  | redirectLocation (location : String)
  /-- An error with a status that is none. -/
  | errorStatus (status : Status)
  deriving Repr, DecidableEq

/-- The message of an error. -/
def RenderError.message : RenderError → String
  | page error => "template execution failed: " ++ error.message
  | redirectStatus status => "redirect requires a 3xx status, got " ++ status.display
  | redirectLocation location => "unsafe redirect location " ++ quote location
  | errorStatus status => "status " ++ status.display ++ " is not an error status"

/-- Renders responses. -/
abbrev Renderer := Response → Except RenderError Rendering

namespace Rendering

/-- What stands before JSON. It ends a string and a block and so is no script. -/
def jsonGuard : String := ")]\x7d',\n"

/-- The type of markup. -/
def htmlType : String := "text/html; charset=utf-8"

/-- The type of plain text. -/
def plainType : String := "text/plain; charset=utf-8"

/-- The type of JSON. -/
def jsonType : String := "application/json; charset=utf-8"

/-- A rendering with nothing but a status. -/
def ofStatus (status : Status) : Rendering := ⟨status, none, none, []⟩

/-- A rendering of a text with its type. -/
def ofText (status : Status) (contentType : String) (text : List Char) : Rendering :=
  ⟨status, some contentType, none, encode text⟩

/-- Characters that end the scheme of an address, or show that there is none. -/
def endsScheme (c : Char) : Bool := c == ':' || c == '/' || c == '?' || c == '#'

/-- The scheme of an address, if it has one. -/
def scheme? (location : List Char) : Option String :=
  match location.dropWhile fun c => !endsScheme c with
  | ':' :: _ => some (String.ofList (location.takeWhile fun c => !endsScheme c))
  | _ => none

/-- Schemes of the web. -/
def isWebScheme (scheme : String) : Bool := alike scheme "http" || alike scheme "https"

/-- Whether a redirect may lead to a location: it is not empty, keeps its line, and has no scheme or
one of the web. -/
def isSafeLocation (location : String) : Bool :=
  !location.toList.isEmpty && !breaksLine location &&
    match scheme? location.toList with
    | some scheme => isWebScheme scheme
    | none => true

end Rendering

open Rendering in
/-- The standard renderer. -/
def render : Renderer
  | .html markup => .ok (ofText .ok htmlType markup.text.toList)
  | .page page =>
    match page.template.fill page.data page.functions with
    | .ok markup => .ok (ofText .ok htmlType markup.text.toList)
    | .error e => .error (.page e)
  | .json value => .ok (ofText .ok jsonType (jsonGuard.toList ++ value.print))
  | .redirect location status =>
    if !status.isRedirection then .error (.redirectStatus status)
    else if !isSafeLocation location then .error (.redirectLocation location)
    else .ok { ofStatus status with location := some location }
  | .noContent => .ok (ofStatus .noContent)
  | .error status =>
    if !status.isError then .error (.errorStatus status)
    else .ok (ofText status plainType status.reason.toList)

/-- What is rendered has the status that the response asks for. -/
theorem status_of_render {response : Response} {r : Rendering} (h : render response = .ok r) :
    r.status = response.status := by
  unfold render at h
  split at h
  · cases h; rfl
  · split at h <;> cases h; rfl
  · cases h; rfl
  · split at h
    · cases h
    split at h <;> cases h; rfl
  · cases h; rfl
  · split at h <;> cases h; rfl

end Palisade
