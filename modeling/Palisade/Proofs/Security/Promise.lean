import Palisade.Proofs.Security.Stack

/-!
# The headers that a service promises

Every reply of a service carries the security headers that its settings ask for, with exactly their
values: the interceptors that own them run before any that can refuse the request, and nothing behind
them writes a header that is claimed. The promise covers routes that do not tune these headers,
handlers that work on headers with operations alone, and requests that count as encrypted.
-/
namespace Palisade

open Palisade.Text ResponseHeaders

/-- The target's settings tune no header if no route's do. -/
theorem Target.untuned_lookup {routes : List Route} (hu : ∀ r ∈ routes, r.configs.Untuned)
    (request : Request) : (lookup routes request).configs.Untuned := by
  cases hl : lookup routes request with
  | route r captures => exact hu r (mem_of_lookup hl)
  | methodNotAllowed => exact Configs.untuned_empty
  | notFound => exact Configs.untuned_empty

/-- Every reply of a service with the interceptors of some settings carries the headers that the
settings promise, with exactly their values and in the lines that are written, whatever the response
has become: that of the handler, an error of the routing, the answer of an interceptor, or what stands
in place of a response that cannot be rendered. -/
theorem Service.promised_headers {s : Settings} {key : Bytes} {service : Service}
    (hi : s.interceptors key = .ok service.interceptors) (hk : s.KeepsLines)
    (hr : ∀ r ∈ service.routes, r.configs.Untuned ∧ r.handler.Operates)
    (request : Request) (ht : s.transport.behindProxy = true ∨ request.tls = true) (world : World) :
    ∀ p ∈ s.promised
        (ContentSecurity.nonceOf (world.draw ContentSecurity.nonceBytes).1),
      (service.serve request world).1.headers.getAll p.name = p.values ∧
        Headers.getAll ⟨(service.serve request world).1.lines⟩ p.name = p.values := by
  obtain ⟨back, he, hback⟩ := Settings.interceptors_eq hi
  have hconfigs := Target.untuned_lookup (fun r hm => (hr r hm).1) request
  have hoperates := Target.runs_lookup (fun r hm => (hr r hm).2) request
  obtain ⟨next, hstage⟩ := hk.stage_front hconfigs request
    (Target.lookup service.routes request).captures world ht
  have hcommit : ∀ i ∈ s.front ++ back, i.RespectsCommit := by
    rw [List.forall_mem_append]
    exact ⟨Settings.respectsCommit_front, fun i hm => (hback i hm).2⟩
  have hrun := Target.respects_run hstage.passed (fun i hm => (hback i hm).1) hcommit hoperates
  intro p hp
  have hkept := s.kept_of_promised hp
  have hpinned := hstage.hold p hp
  have hlast := hpinned.of_same (hrun p.name hpinned.isClaimed)
  have hfields : (service.serve request world).1.headers.fieldsOf p.name =
      Headers.fieldsFor p.name p.values := by
    rw [service.fieldsOf_serve request world hkept, he]
    exact hlast.fieldsOf
  have hvalid := hk.valid_promised (ContentSecurity.breaksLine_nonceOf _) p hp
  have hlines : Headers.fieldsOf ⟨(service.serve request world).1.lines⟩ p.name =
      Headers.fieldsFor p.name p.values := by
    have hl := hvalid.isLine
    rw [← hfields] at hl
    rw [Reply.fieldsOf_lines hkept hl, hfields]
  exact ⟨Headers.getAll_of_fieldsOf hfields, Headers.getAll_of_fieldsOf hlines⟩

namespace Meddling

/-- A handler that tries to change security headers and to claim one of them. -/
def script : HandlerScript where
  steps :=
    [.header (.set TransportSecurity.headerName "max-age=0"),
      .header (.del ContentSecurity.enforcedHeader), .header (.claim Framing.headerName),
      .header (.setClaimed Framing.headerName ["ALLOWALL"])]
  answer := .plain

/-- The route of the handler. -/
def route : Route := .ofText "/" .get (script.handler fun _ => "") .empty

/-- The usual interceptors around the handler. -/
def service : Service where
  renderer := render
  interceptors := [(Settings.transportSecurity {}).interceptor] ++ Settings.unchecked {} ++ [] ++
    [FormForgery.interceptor ⟨[1]⟩]
  routes := [route]
  distinct := Route.duplicate?_eq_none_iff.2 (by simp)

/-- A request for the route, over an encrypted connection. -/
def request : Request := ⟨.get, "/", none, 1, ⟨[⟨"Host", "h"⟩]⟩, [], true⟩

/-- The handler does not get its way. -/
theorem promised_headers_despite_handler :
    (service.serve request ⟨0, fun _ => 0, 0, []⟩).1.headers.getAll "Strict-Transport-Security" =
        [(Settings.transportSecurity {}).headerValue] ∧
      (service.serve request ⟨0, fun _ => 0, 0, []⟩).1.headers.getAll "X-Frame-Options" =
        ["SAMEORIGIN"] := by
  have hi : Settings.interceptors {} [1] = .ok service.interceptors := rfl
  have hk : Settings.KeepsLines {} := by
    intro t ht
    simp [Settings.headerTexts] at ht
  have hr : ∀ r ∈ service.routes, r.configs.Untuned ∧ r.handler.Operates := by
    intro r hm
    obtain rfl := List.mem_singleton.1 hm
    exact ⟨Configs.untuned_empty, HandlerScript.operates_handler _ script⟩
  have hp := Service.promised_headers hi hk hr request (.inr rfl) ⟨0, fun _ => 0, 0, []⟩
  constructor
  · refine (hp ⟨TransportSecurity.headerName, [(Settings.transportSecurity {}).headerValue]⟩ ?_).1
    simp [Settings.promised, TransportSecurity.pins]
  · refine (hp ⟨Framing.headerName, ["SAMEORIGIN"]⟩ ?_).1
    simp [Settings.promised, Framing.pins]

end Meddling

end Palisade
