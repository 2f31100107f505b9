import Palisade.Interceptor
import Palisade.Security.ContentSecurity

/-!
# Interceptors with headers of their own

Four interceptors give responses headers of their own, each with a claim, so that nobody behind them can
change these: one for encrypted connections, one for fixed headers, one for openers of a page and one for
pages that frame it. The first of them also sends requests that came without encryption to the same
address with encryption.
-/
namespace Palisade

/-! ### Strict transport security

Requests that did not come over an encrypted connection are sent to the same address with
encryption; all others get the header that tells browsers to come with encryption from now on. Behind
a proxy that ends the encryption every request counts as encrypted. -/

/-- What browsers are told about encryption. -/
structure TransportSecurity where
  /-- For how many milliseconds a browser remembers it. -/
  maxAge : Nat := 63072000 * 1000
  /-- Whether it holds for the hosts below as well. -/
  includeSubdomains : Bool := true
  /-- Whether the host may be put on lists that browsers bring along. -/
  preload : Bool := false
  /-- Whether a proxy ends the encryption. -/
  behindProxy : Bool := false
  deriving Repr, DecidableEq

namespace TransportSecurity

/-- The age in whole seconds; parts of a second do not count. -/
def seconds (t : TransportSecurity) : Nat := t.maxAge / 1000

/-- Refuses a preload with an age of zero. -/
def build (t : TransportSecurity) : Except SetupError TransportSecurity :=
  if t.preload ∧ t.seconds = 0 then .error .preloadWithoutMaxAge else .ok t

/-- The name of the header. -/
def headerName : String := "Strict-Transport-Security"

/-- The value of the header. -/
def headerValue (t : TransportSecurity) : String :=
  "max-age=" ++ Text.showNat t.seconds ++
    (if t.includeSubdomains then "; includeSubDomains" else "") ++
    (if t.preload then "; preload" else "")

/-- The address of a request, with encryption. -/
def secureLocation (r : Request) : String :=
  "https://" ++ r.host ++ r.path ++
    match r.query with
    | some query => "?" ++ query
    | none => ""

/-- The name that the journal shows. -/
def name : String := "hsts"

/-- The interceptor. -/
def interceptor (t : TransportSecurity) : Interceptor where
  name
  before _ ctx :=
    if t.behindProxy || ctx.request.tls then
      Interceptor.afterWrites name .pass (ctx.perform [.own headerName [t.headerValue]])
    else (.respond (.redirect (secureLocation ctx.request) .movedPermanently), ctx)

end TransportSecurity

/-! ### Fixed headers

Two headers that every response carries: browsers shall not guess types, and shall leave out a filter
that has done more harm than good. -/

namespace FixedHeaders

/-- The header against guessed types. -/
def typeHeader : String := "X-Content-Type-Options"

/-- The header against the filter. -/
def filterHeader : String := "X-XSS-Protection"

/-- What is written. -/
def writes : List HeaderWrite := [.own typeHeader ["nosniff"], .own filterHeader ["0"]]

/-- The interceptor. -/
def interceptor : Interceptor := .ofWrites "static_headers" fun _ => writes

end FixedHeaders

/-! ### Isolation from openers

Policies on openers are written into two headers, the enforced ones and those that only report. A
route's own policy stands in place of the usual ones. -/

namespace OpenerIsolation

/-- The policies that hold on a route. -/
def effective (policies : List OpenerPolicy) (configs : Configs) : List OpenerPolicy :=
  match configs.opener? with
  | some policy => [policy]
  | none => policies

/-- The headers of policies. -/
def writes (policies : List OpenerPolicy) : List HeaderWrite :=
  [.own OpenerPolicy.enforcedHeader
    ((policies.filter fun p => !p.reportOnly).map OpenerPolicy.headerValue),
   .own OpenerPolicy.reportedHeader
    ((policies.filter fun p => p.reportOnly).map OpenerPolicy.headerValue)]

/-- The interceptor. -/
def interceptor (policies : List OpenerPolicy) : Interceptor :=
  .ofWrites "coop" fun configs => writes (effective policies configs)

/-- The interceptor of the policy that holds if no other is given. -/
def standard : Interceptor := interceptor [{}]

end OpenerIsolation

/-! ### Protection against framing

A page that another page frames can be made to take clicks meant for something else. Browsers get a
content policy, and those that do not know it get an older header. That header cannot list origins,
so it is left out on routes that list some. -/

namespace Framing

/-- The older header. -/
def headerName : String := "X-Frame-Options"

/-- Whether the content policy alone decides who may frame the page. -/
def policyDecides (configs : Configs) : Bool :=
  configs.has .framingAllowed || configs.framingBy?.isSome

/-- What is written on a route. The header is claimed in any case. -/
def writes (configs : Configs) : List HeaderWrite :=
  if policyDecides configs then [.reserve headerName] else [.own headerName ["SAMEORIGIN"]]

/-- The interceptor of the older header. -/
def interceptor : Interceptor := .ofWrites "framing" writes

/-- The interceptors of the policy and of the older header. -/
def interceptors (reportUri : Option String) : List Interceptor :=
  [ContentSecurity.interceptor [FramingPolicy.policy ⟨false, reportUri⟩], interceptor]

end Framing

end Palisade
