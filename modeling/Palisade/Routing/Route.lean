import Palisade.Interceptor
import Palisade.Routing.Pattern
import Palisade.Text.Ascii
import Palisade.Text.Split

/-!
# Routes

A route binds a host, a method and a pattern to a handler. Routes of the host that a request names
shadow all others as soon as one of their patterns matches the path; among the remaining routes the
first with the method of the request is taken.
-/
namespace Palisade

/-! ### Hosts

A route may be bound to a host, which stands before its path. Hosts are compared in small letters and
without a port. -/

namespace Host

open Palisade.Text

/-- The host that a route is bound to, if any, and its path. The host is what stands before the
first slash. -/
def split (route : String) : Option String × String :=
  match cutAt '/' route.toList with
  | some ([], _) | none => (none, route)
  | some (host, path) => (some (lower (String.ofList host)), String.ofList ('/' :: path))

/-- A Host header without a port: the last colon and what follows it, if that is digits only. -/
def withoutPort (host : List Char) : List Char :=
  match cutAtLast ':' host with
  | some (name, port) => if port.all Char.isDigit then name else host
  | none => host

/-- The host that a Host header names, as routes are bound to it. -/
def normalize (host : String) : String := lower (String.ofList (withoutPort host.toList))

end Host

/-! ### Routes -/

/-- Answers a request. -/
abbrev Handler := Context → Response × Context

/-- A route. -/
structure Route where
  /-- The host that it is bound to, if any. -/
  host : Option String
  /-- The method. -/
  method : Method
  /-- The route as it was written. -/
  source : String
  /-- The pattern of its paths. -/
  pattern : Pattern
  /-- What answers its requests. -/
  handler : Handler
  /-- Its settings. -/
  configs : Configs

namespace Route

/-- A route written as a pattern with a host before it or none. -/
def ofText (source : String) (method : Method) (handler : Handler) (configs : Configs) : Route :=
  let (host, path) := Host.split source
  { host, method, source, pattern := Pattern.read path, handler, configs }

/-- What tells routes apart: host, pattern and method. -/
def key (r : Route) : Option String × Pattern × Method := (r.host, r.pattern, r.method)

/-- The first route whose key is among those seen or that of an earlier route. -/
def duplicateAmong? (seen : List (Option String × Pattern × Method)) :
    List Route → Option Route
  | [] => none
  | r :: rest => if seen.contains r.key then some r else duplicateAmong? (r.key :: seen) rest

/-- The first route that repeats an earlier one. -/
def duplicate? (routes : List Route) : Option Route := duplicateAmong? [] routes

/-- Among routes there is no duplicate exactly if their keys are distinct and none was seen before. -/
theorem duplicateAmong?_eq_none_iff {seen : List (Option String × Pattern × Method)}
    {routes : List Route} :
    duplicateAmong? seen routes = none ↔
      (routes.map key).Nodup ∧ ∀ r ∈ routes, r.key ∉ seen := by
  induction routes generalizing seen with
  | nil => simp [duplicateAmong?]
  | cons r rest ih =>
    by_cases h : r.key ∈ seen
    · simp [duplicateAmong?, h]
    · simp only [duplicateAmong?, List.contains_iff_mem, h, if_false, ih, List.mem_cons, not_or,
        List.map_cons, List.nodup_cons, List.mem_map, forall_eq_or_imp, not_false_eq_true, true_and,
        not_exists, not_and]
      constructor
      · rintro ⟨hn, hs⟩
        exact ⟨⟨fun s hs' => (hs s hs').1, hn⟩, fun s hs' => (hs s hs').2⟩
      · rintro ⟨⟨hk, hn⟩, hs⟩
        exact ⟨hn, fun s hs' => ⟨hk s hs', hs s hs'⟩⟩

/-- No route repeats another exactly if their keys are distinct. -/
theorem duplicate?_eq_none_iff {routes : List Route} :
    duplicate? routes = none ↔ (routes.map key).Nodup := by
  simp [duplicate?, duplicateAmong?_eq_none_iff]

end Route

/-- Where a request goes. -/
inductive Target where
  /-- To a route, with what its pattern captured. -/
  | route (route : Route) (captures : Captures)
  /-- The path has routes, but none for the method. -/
  | methodNotAllowed
  /-- The path has no routes. -/
  | notFound

namespace Target

/-- The routes of a host, or of none, whose patterns match a path. -/
def candidates (routes : List Route) (host : Option String) (path : String) :
    List (Route × Captures) :=
  (routes.filter fun r => r.host == host).filterMap fun r =>
    (r.pattern.matches? path).map fun captures => (r, captures)

/-- The first route for the method among those that match the path. -/
def choose (found : List (Route × Captures)) (method : Method) : Target :=
  match found.find? fun (r, _) => r.method == method with
  | some (r, captures) => .route r captures
  | none => .methodNotAllowed

/-- Where a request goes. -/
def lookup (routes : List Route) (request : Request) : Target :=
  let ofHost := candidates routes (some (Host.normalize request.host)) request.path
  let ofNone := candidates routes none request.path
  if !ofHost.isEmpty then choose ofHost request.method
  else if !ofNone.isEmpty then choose ofNone request.method
  else .notFound

/-- What the pattern of the route captured. -/
def captures : Target → Captures
  | route _ captures => captures
  | _ => .empty

/-- The settings of the route; other targets have none. -/
def configs : Target → Configs
  | route r _ => r.configs
  | _ => .empty

/-- Answers a request at its target. -/
def answer (ctx : Context) : Target → Response × Context
  | route r _ => r.handler ctx
  | methodNotAllowed => (.error .methodNotAllowed, ctx)
  | notFound => (.error .notFound, ctx)

end Target

end Palisade
