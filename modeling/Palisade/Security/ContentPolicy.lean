import Palisade.Interceptor

/-!
# Content policies

A content policy tells a browser what a page may load, run or be framed by. It is written for one
response, with the nonce of that response, or does not apply to the route at all.
-/
namespace Palisade

/-- A policy. -/
structure ContentPolicy where
  /-- The policy with a nonce, on a route with these settings. -/
  serialize : String → Configs → Option String
  /-- Whether violations are only reported. -/
  reportOnly : Bool

namespace ContentPolicy

/-- A policy with the place where violations are reported. -/
def withReports (policy : String) (reportUri : Option String) : String :=
  match reportUri with
  | some uri => policy ++ "; report-uri " ++ uri
  | none => policy

end ContentPolicy

/-- Scripts run if they carry the nonce of the response. -/
structure StrictPolicy where
  /-- Whether violations are only reported. -/
  reportOnly : Bool := false
  /-- Where violations are reported. -/
  reportUri : Option String := none
  /-- Whether scripts that trusted scripts load are not trusted. -/
  noStrictDynamic : Bool := false
  /-- Whether texts may be run as scripts. -/
  unsafeEval : Bool := false
  /-- What base addresses a page may have, in place of none. -/
  baseUri : Option String := none
  deriving Repr, DecidableEq

namespace StrictPolicy

/-- What scripts may run. -/
def scriptSource (p : StrictPolicy) (nonce : String) : String :=
  "'unsafe-inline' 'nonce-" ++ nonce ++ "'" ++
    (if p.noStrictDynamic then "" else " 'strict-dynamic'") ++
    (if p.unsafeEval then " 'unsafe-eval'" else "")

/-- The policy with a nonce. -/
def serialize (p : StrictPolicy) (nonce : String) : String :=
  ContentPolicy.withReports
    ("object-src 'none'; script-src " ++ p.scriptSource nonce ++ " https: http:; base-uri " ++
      p.baseUri.getD "'none'")
    p.reportUri

/-- The policy, which holds on every route. -/
def policy (p : StrictPolicy) : ContentPolicy :=
  ⟨fun nonce _ => some (p.serialize nonce), p.reportOnly⟩

end StrictPolicy

/-- Pages are framed by pages of their own origin and of those that the route lists. -/
structure FramingPolicy where
  /-- Whether violations are only reported. -/
  reportOnly : Bool := false
  /-- Where violations are reported. -/
  reportUri : Option String := none
  deriving Repr, DecidableEq

namespace FramingPolicy

/-- The policy on a route, unless the route may be framed by everyone. -/
def serialize (p : FramingPolicy) (configs : Configs) : Option String :=
  if configs.has .framingAllowed then none
  else
    let origins := configs.framingBy?.getD []
    some (ContentPolicy.withReports
      ("frame-ancestors 'self'" ++ String.join (origins.map (" " ++ ·))) p.reportUri)

/-- The policy, which does not depend on the nonce. -/
def policy (p : FramingPolicy) : ContentPolicy :=
  ⟨fun _ configs => p.serialize configs, p.reportOnly⟩

end FramingPolicy

/-- Scripts write into pages only through checked types. -/
structure TrustedTypesPolicy where
  /-- Whether violations are only reported. -/
  reportOnly : Bool := false
  /-- Where violations are reported. -/
  reportUri : Option String := none
  deriving Repr, DecidableEq

/-- The policy, which is the same for every response. -/
def TrustedTypesPolicy.policy (p : TrustedTypesPolicy) : ContentPolicy :=
  ⟨fun _ _ => some (ContentPolicy.withReports "require-trusted-types-for 'script'" p.reportUri),
    p.reportOnly⟩

end Palisade
