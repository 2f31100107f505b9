import Palisade.Interceptor
import Palisade.Text.Blank

/-!
# Requests of other origins

Only listed origins may read responses. Requests without an origin, and those of the own origin,
pass. A browser asks beforehand whether a request is allowed and is answered here. A request that
browsers send without asking must carry a mark, which they do not set without asking.
-/
namespace Palisade

open Palisade.Text

/-- What other origins may do. -/
structure CrossOrigin where
  /-- The origins that may read responses. -/
  origins : List String
  /-- The methods that they may use. -/
  methods : List Method
  /-- The headers that they may send. -/
  headers : List String
  /-- The headers of responses that they may read. -/
  exposed : List String
  /-- Whether their requests carry cookies. -/
  credentials : Bool
  /-- For how many seconds an answer beforehand holds. -/
  maxAge : Nat
  deriving Repr, DecidableEq

namespace CrossOrigin

/-- The mark of requests that are sent without asking. -/
def markHeader : String := "X-Cors"

/-- What separates the scheme of an origin from its authority. -/
def schemeMark : List Char := "://".toList

/-- Whether a text is an origin: a scheme of the web and an authority. -/
def isOrigin (origin : String) : Bool :=
  match cutPattern schemeMark origin.toList with
  | some (scheme, authority) =>
    (scheme == "http".toList || scheme == "https".toList) &&
      !authority.isEmpty && !authority.contains '/'
  | none => false

/-- Whether an origin has the authority that a Host header names. -/
def isSameOrigin (origin host : String) : Bool :=
  !host.toList.isEmpty &&
    match cutPattern schemeMark origin.toList with
    | some (_, authority) => alike (String.ofList authority) host
    | none => false

/-- Refuses what is no origin. -/
def checkOrigins : List String → Except SetupError Unit
  | [] => .ok ()
  | origin :: rest =>
    if origin = "*" then .error .wildcardOrigin
    else if !isOrigin origin then .error (.invalidOrigin origin)
    else checkOrigins rest

/-- Lets origins read responses to requests of the three simple methods. -/
def ofOrigins (origins : List String) : Except SetupError CrossOrigin :=
  match checkOrigins origins with
  | .error e => .error e
  | .ok () => .ok {
      origins
      methods := [.get, .head, .post]
      headers := [markHeader]
      exposed := []
      credentials := false
      maxAge := 5 }

/-- Allows a method. -/
def allowMethod (c : CrossOrigin) (m : Method) : CrossOrigin :=
  if c.methods.contains m then c else { c with methods := c.methods ++ [m] }

/-- Allows a header of requests. -/
def allowHeader (c : CrossOrigin) (name : String) : CrossOrigin :=
  { c with headers := c.headers ++ [name] }

/-- Lets a header of responses be read. -/
def exposeHeader (c : CrossOrigin) (name : String) : CrossOrigin :=
  { c with exposed := c.exposed ++ [name] }

/-- Whether a header of requests is allowed. -/
def allowsHeader (c : CrossOrigin) (name : String) : Bool := c.headers.any fun h => alike h name

/-- Whether a method is allowed that a browser asks for by name. -/
def allowsName (c : CrossOrigin) (name : String) : Bool := c.methods.any fun m => m.name == name

/-- The header that tells which origin may read the response. -/
def originHeader : String := "Access-Control-Allow-Origin"

/-- The headers that let an origin read the response. -/
def allowWrites (c : CrossOrigin) (origin : String) : List HeaderWrite :=
  [.own originHeader [origin], .add "Vary" "Origin"] ++
    (if c.credentials then [.set "Access-Control-Allow-Credentials" "true"] else []) ++
    (if c.exposed.isEmpty then []
     else [.set "Access-Control-Expose-Headers" (String.intercalate ", " c.exposed)])

/-- The headers that a browser asks for. -/
def requestedHeaders (r : Request) : List String :=
  match r.headers.get? "access-control-request-headers" with
  | some list =>
    ((pieces ',' list.toList).map trimBlanks |>.filter fun s => !s.isEmpty).map String.ofList
  | none => []

/-- The headers of an answer beforehand. -/
def preflightWrites (c : CrossOrigin) (origin : String) (requested : List String) :
    List HeaderWrite :=
  c.allowWrites origin ++
    [.set "Access-Control-Allow-Methods" (String.intercalate ", " (c.methods.map Method.name))] ++
    (if requested.isEmpty then []
     else [.set "Access-Control-Allow-Headers" (String.intercalate ", " requested)]) ++
    [.set "Access-Control-Max-Age" (showNat c.maxAge)]

/-- Why an answer beforehand is no. -/
def preflightRefusal? (c : CrossOrigin) (origin method : String) (requested : List String) :
    Option Refusal :=
  if !c.allowsName method then
    some ⟨.forbidden, .warn, "CORS preflight for disallowed method",
      [("origin", origin), ("method", method)]⟩
  else match requested.find? fun h => !c.allowsHeader h with
    | some header =>
      some ⟨.forbidden, .warn, "CORS preflight for disallowed header",
        [("origin", origin), ("header", header)]⟩
    | none => none

/-- Types that a browser sends without asking. -/
def simpleTypes : List String :=
  ["application/x-www-form-urlencoded", "multipart/form-data", "text/plain"]

/-- Whether a browser sends a request without asking. -/
def isSimple (r : Request) : Bool :=
  (r.method == .get || r.method == .head || r.method == .post) &&
    match r.headers.get? "content-type" with
    | none => true
    | some contentType => simpleTypes.any fun t => alike t (Request.mediaType contentType)

/-- The method that a browser asks for beforehand, if the request is such a question. -/
def preflight? (r : Request) : Option String :=
  if r.method = .options then r.headers.get? "access-control-request-method" else none

/-- Why a request that is no question beforehand is refused. -/
def refusal? (c : CrossOrigin) (origin : String) (r : Request) : Option Refusal :=
  if !c.methods.contains r.method then
    some ⟨.methodNotAllowed, .warn, "CORS request with disallowed method",
      [("origin", origin), ("method", r.method.name)]⟩
  else if isSimple r && r.headers.get? markHeader != some "1" then
    some ⟨.preconditionFailed, .warn, "cross-origin simple request without X-Cors",
      [("origin", origin)]⟩
  else none

/-- The name that the journal shows. -/
def name : String := "cors"

/-- Answers a request of another origin, or lets it pass. -/
def foreign (c : CrossOrigin) (origin : String) (ctx : Context) : Flow × Context :=
  if !c.origins.contains origin then
    Refusal.answer ⟨.forbidden, .warn, "CORS request from disallowed origin",
      [("origin", origin)]⟩ ctx
  else match preflight? ctx.request with
    | some method =>
      let requested := requestedHeaders ctx.request
      match c.preflightRefusal? origin method requested with
      | some refusal => refusal.answer ctx
      | none => Interceptor.afterWrites name (.respond .noContent)
          (ctx.perform (c.preflightWrites origin requested))
    | none =>
      match c.refusal? origin ctx.request with
      | some refusal => refusal.answer ctx
      | none => Interceptor.afterWrites name .pass (ctx.perform (c.allowWrites origin))

/-- The interceptor. -/
def interceptor (c : CrossOrigin) : Interceptor where
  name
  before _ ctx :=
    match ctx.request.headers.get? "origin" with
    | none => (.pass, ctx)
    | some origin =>
      if isSameOrigin origin ctx.request.host then (.pass, ctx) else c.foreign origin ctx

end CrossOrigin

end Palisade
