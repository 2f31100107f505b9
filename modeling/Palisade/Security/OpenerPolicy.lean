/-!
# Opener policies

A policy on openers separates a page from windows of other origins that open it or that it opens. It
is enforced, or its violations are only reported.
-/
namespace Palisade

/-- How far a page is separated. -/
inductive OpenerMode where
  | sameOrigin
  | sameOriginAllowPopups
  | unsafeNone
  deriving Repr, DecidableEq

/-- The name of a mode. -/
def OpenerMode.name : OpenerMode → String
  | sameOrigin => "same-origin"
  | sameOriginAllowPopups => "same-origin-allow-popups"
  | unsafeNone => "unsafe-none"

/-- The modes by their names. -/
def OpenerMode.byName : List (String × OpenerMode) :=
  [.sameOrigin, .sameOriginAllowPopups, .unsafeNone].map fun m => (m.name, m)

/-- A policy on openers. -/
structure OpenerPolicy where
  /-- How far the page is separated. -/
  mode : OpenerMode := .sameOrigin
  /-- Where violations are reported. -/
  reportTo : Option String := none
  /-- Whether violations are only reported. -/
  reportOnly : Bool := false
  deriving Repr, DecidableEq

namespace OpenerPolicy

/-- The header of enforced policies. -/
def enforcedHeader : String := "Cross-Origin-Opener-Policy"

/-- The header of policies whose violations are only reported. -/
def reportedHeader : String := "Cross-Origin-Opener-Policy-Report-Only"

/-- A policy as a header value. -/
def headerValue (p : OpenerPolicy) : String :=
  match p.reportTo with
  | some group => p.mode.name ++ "; report-to=\"" ++ group ++ "\""
  | none => p.mode.name

end OpenerPolicy

end Palisade
