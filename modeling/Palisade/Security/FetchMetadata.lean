import Palisade.Interceptor

/-!
# Isolation by fetch metadata

Browsers tell with each request which site it comes from, in which mode and for what. A request from
another site is refused unless it is a plain navigation or goes to an endpoint that is open to other
origins. A server that nobody links to may refuse navigations as well. Requests without the headers
pass.
-/
namespace Palisade

/-- Which rule a request breaks. -/
inductive IsolationRule where
  /-- Resources are not for other sites. -/
  | resource
  /-- Other sites do not link here. -/
  | navigation
  deriving Repr, DecidableEq

/-- The name of a rule. -/
def IsolationRule.name : IsolationRule → String
  | resource => "resource isolation"
  | navigation => "navigation isolation"

/-- How requests from other sites are treated. -/
structure FetchMetadata where
  /-- Whether navigations are refused as well. -/
  navigationIsolation : Bool := false
  /-- Whether violations are only recorded. -/
  reportOnly : Bool := false
  /-- Paths that are open to other origins. -/
  corsEndpoints : List String := []
  deriving Repr, DecidableEq

namespace FetchMetadata

/-- The header of the site. -/
def siteHeader : String := "Sec-Fetch-Site"

/-- The header of the mode. -/
def modeHeader : String := "Sec-Fetch-Mode"

/-- The header of the destination. -/
def destinationHeader : String := "Sec-Fetch-Dest"

/-- The first value of a header, or the empty text. -/
def valueOf (r : Request) (name : String) : String := (r.headers.get? name).getD ""

/-- Sites whose requests pass. -/
def isOwnSite (site : String) : Bool := site == "same-origin" || site == "same-site" || site == "none"

/-- Destinations within a page. -/
def isEmbedding (destination : String) : Bool := destination == "object" || destination == "embed"

/-- The rule that a request from another site breaks, if any. -/
def foreignViolation? (f : FetchMetadata) (r : Request) : Option IsolationRule :=
  if valueOf r modeHeader = "navigate" then
    if f.navigationIsolation then some .navigation
    else if r.method = .get ∧ !isEmbedding (valueOf r destinationHeader) then none
    else some .resource
  else if valueOf r modeHeader = "cors" ∧ f.corsEndpoints.contains r.path then none
  else some .resource

/-- The rule that a request breaks, if any. -/
def violation? (f : FetchMetadata) (r : Request) : Option IsolationRule :=
  match r.headers.get? siteHeader with
  | none => none
  | some site => if isOwnSite site then none else f.foreignViolation? r

/-- The event of a violation. -/
def event (f : FetchMetadata) (r : Request) (rule : IsolationRule) : Event :=
  ⟨.warn, "fetch metadata policy violation",
    [("policy", rule.name), ("report_only", showBool f.reportOnly), ("method", r.method.name),
     ("path", r.path), ("site", valueOf r siteHeader), ("mode", valueOf r modeHeader),
     ("dest", valueOf r destinationHeader)]⟩

/-- The interceptor. -/
def interceptor (f : FetchMetadata) : Interceptor where
  name := "fetch_metadata"
  before configs ctx :=
    if configs.has .anySite then (.pass, ctx)
    else match f.violation? ctx.request with
      | none => (.pass, ctx)
      | some rule =>
        let recorded := ctx.record (f.event ctx.request rule)
        if f.reportOnly then (.pass, recorded) else (.reject .forbidden, recorded)

end FetchMetadata

end Palisade
