import Palisade.Context.Basic
import Palisade.Json.Fault
import Palisade.Response.Basic
import Palisade.Security.OpenerPolicy
import Palisade.Text.Quoted

/-!
# Interceptors

An interceptor runs around every handler: before it, in order, and after a response was written, in
the reverse order. Before the handler it may answer the request itself; afterwards it may finish the
headers and the response. Settings of the matched route tune it.
-/
namespace Palisade

/-- A setting of a route. -/
inductive RouteConfig where
  /-- No content policies. -/
  | withoutPolicies
  /-- No protection against framing. -/
  | framingAllowed
  /-- Origins that may frame the page. -/
  | framingBy (origins : List String)
  /-- A policy on openers in place of the usual ones. -/
  | opener (policy : OpenerPolicy)
  /-- No check of where requests come from. -/
  | anySite
  /-- No check of tokens. -/
  | withoutTokens
  /-- A label of the application. -/
  | tag (label : String)
  /-- A whole number of the application. -/
  | integer (value : Int)
  /-- A text of the application. -/
  | text (value : String)
  /-- A truth value of the application. -/
  | flag (value : Bool)
  deriving Repr, DecidableEq

/-- The settings of a route. -/
structure Configs where
  /-- The settings in the order in which they were given. -/
  items : List RouteConfig
  deriving Repr, DecidableEq

namespace Configs

/-- No settings. -/
def empty : Configs := ⟨[]⟩

/-- The number of settings. -/
def size (c : Configs) : Nat := c.items.length

/-- Whether a setting without a value was given. -/
def has (c : Configs) (item : RouteConfig) : Bool := c.items.contains item

/-- The origins of the first list of those that may frame the page. -/
def framingBy? (c : Configs) : Option (List String) :=
  c.items.findSome? fun | .framingBy origins => some origins | _ => none

/-- The first policy on openers. -/
def opener? (c : Configs) : Option OpenerPolicy :=
  c.items.findSome? fun | .opener policy => some policy | _ => none

/-- The first label. -/
def tag? (c : Configs) : Option String :=
  c.items.findSome? fun | .tag label => some label | _ => none

/-- The first whole number. -/
def integer? (c : Configs) : Option Int :=
  c.items.findSome? fun | .integer value => some value | _ => none

/-- The first text. -/
def text? (c : Configs) : Option String :=
  c.items.findSome? fun | .text value => some value | _ => none

/-- The first truth value. -/
def flag? (c : Configs) : Option Bool :=
  c.items.findSome? fun | .flag value => some value | _ => none

/-- How settings show: by their number. -/
def display (c : Configs) : String := "Configs \x7b len: " ++ Text.showNat c.size ++ " \x7d"

end Configs

/-- What an interceptor does with a request before the handler. -/
inductive Flow where
  /-- The request goes on. -/
  | pass
  /-- The request is answered here. -/
  | respond (response : Response)

/-- Answers with an error. -/
def Flow.reject (status : Status) : Flow := .respond (.error status)

/-- Something that runs around every handler. -/
structure Interceptor where
  /-- The name that the journal shows. -/
  name : String
  /-- What is done before the handler. -/
  before : Configs → Context → Flow × Context
  /-- What is done when a response has been written. -/
  commit : Configs → Response → Context → Response × Context := fun _ response ctx => (response, ctx)

/-- A request that is refused: with which status, and what the journal says. -/
structure Refusal where
  /-- The status. -/
  status : Status
  /-- The event. -/
  event : Event
  deriving Repr, DecidableEq

/-- Refuses a request. -/
def Refusal.answer (r : Refusal) (ctx : Context) : Flow × Context :=
  (.reject r.status, ctx.record r.event)

namespace Interceptor

/-- The event of a header that an interceptor cannot write. -/
def headerFailure (name : String) (e : HeaderError) : Event :=
  ⟨.error, "interceptor could not write its header", [("interceptor", name), ("error", e.message)]⟩

/-- Goes on if the headers were written. If not, two interceptors write one header; the response
must not go out without a policy, so the request is refused. -/
def afterWrites (name : String) (onward : Flow) : Context × Option HeaderError → Flow × Context
  | (ctx, none) => (onward, ctx)
  | (ctx, some e) => (.reject .internalServerError, ctx.record (headerFailure name e))

/-- An interceptor that only writes headers. -/
def ofWrites (name : String) (writes : Configs → List HeaderWrite) : Interceptor where
  name
  before configs ctx := afterWrites name .pass (ctx.perform (writes configs))

end Interceptor

/-! ### Errors of the setup

Settings that contradict each other or would leave a hole are refused when interceptors are built,
before any request is served. -/

/-- Why interceptors cannot be built. -/
inductive SetupError where
  /-- Browsers are asked to remember a host and to forget it at once. -/
  | preloadWithoutMaxAge
  | wildcardOrigin
  | invalidOrigin (origin : String)
  /-- The key that signs tokens is empty. -/
  | emptyKey
  /-- The document of the settings cannot be read. -/
  | document (fault : Json.Fault)
  deriving Repr, DecidableEq

/-- The message of an error. -/
def SetupError.message : SetupError → String
  | preloadWithoutMaxAge => "HSTS preload requires a non-zero max-age"
  | wildcardOrigin => "CORS origins must be listed explicitly, \"*\" is not allowed"
  | invalidOrigin origin =>
    "invalid CORS origin " ++ Text.quote origin ++ ", expected scheme://host[:port]"
  | emptyKey => "the XSRF key must not be empty"
  | document fault => "invalid configuration document: " ++ fault.message

end Palisade
