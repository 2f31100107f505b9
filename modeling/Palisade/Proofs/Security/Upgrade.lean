import Palisade.Proofs.Http.RequestLine
import Palisade.Proofs.Http.Wire
import Palisade.Proofs.Response.Redirects
import Palisade.Proofs.Service.Layers
import Palisade.Proofs.Service.Trace
import Palisade.Security.OwnHeaders

/-!
# Requests that did not come encrypted

Where the first interceptor asks for encryption and no proxy ends it, a request that came without is sent
to the same address with it. The main statement says so from the bytes that were received to the bytes
that are sent: whatever the target and the host, the reply is written and leads there, and nobody else is
called. The routes, the handlers and the other interceptors may be any.
-/
namespace Palisade

open Palisade.Text

namespace TransportSecurity

variable {buffer : Bytes} {r : Request} {start : Nat}

/-! ### The address with encryption -/

/-- The address is the same one, with encryption. -/
theorem secureLocation_eq (r : Request) : secureLocation r = "https://" ++ r.host ++ r.target := by
  rw [secureLocation, Request.target]
  exact String.append_assoc

/-- The address of a request that was parsed is one line. -/
theorem breaksLine_secureLocation (h : Request.parse buffer = .ok (r, start)) :
    breaksLine (secureLocation r) = false := by
  rw [secureLocation_eq, breaksLine_append, breaksLine_append, Request.breaksLine_host h,
    Request.breaksLine_target h]
  decide

/-- Whatever the host and the target are, an address that begins with the scheme may be followed if it
keeps its line. -/
theorem followable_secureLocation (h : breaksLine (secureLocation r) = false) :
    Followable (secureLocation r) := by
  have hscheme : (secureLocation r).toList =
      "https".toList ++ ':' :: ("//".toList ++ (r.host.toList ++ r.target.toList)) := by
    simp [secureLocation_eq]
  refine ⟨?_, (breaksLine_eq_false_iff _).1 h, .inr ⟨"https", _, hscheme, .inr (alike_refl "https")⟩⟩
  intro he
  rw [he] at hscheme
  cases hscheme

/-! ### The reply -/

/-- The reply to a request that is sent to encryption. -/
def upgrade (r : Request) : Reply :=
  ⟨.movedPermanently, ⟨[⟨"Location", secureLocation r⟩]⟩, [], r.isKeepAlive⟩

/-- The reply has an address and says what becomes of the connection. -/
theorem framed_upgrade (r : Request) : (upgrade r).framed =
    ⟨[⟨"Location", secureLocation r⟩, ⟨"Connection", (upgrade r).connection⟩]⟩ := by
  have hconnection : alike "Location" "Connection" = false := by decide
  have hlength : ∀ name ∈ ["Location", "Connection"], alike name "content-length" = false := by decide
  have hgiven : (upgrade r).given = [⟨"Location", secureLocation r⟩] := by
    simp [Reply.given, upgrade]
  rw [List.forall_mem_cons, List.forall_mem_singleton] at hlength
  rw [Reply.framed_eq, hgiven]
  simp [Headers.set, Headers.setFields, Headers.remove, Field.named, hconnection, hlength]

/-- The lines of the reply to a request for a host and a target. -/
def upgradeLines (host target : Bytes) (connection : String) : List Bytes :=
  [utf8 "HTTP/1.1 301 Moved Permanently", utf8 "Location: https://" ++ (host ++ target),
    utf8 ("Connection: " ++ connection), utf8 "Content-Length: 0"]

/-- No line of the reply is left out, and there are no others. -/
theorem texts_upgrade (h : breaksLine (secureLocation r) = false) :
    (upgrade r).texts.map encode = upgradeLines (utf8 r.host) (utf8 r.target) (upgrade r).connection := by
  have hline : Reply.isLine ⟨"Location", secureLocation r⟩ = true := by
    have hname : breaksLine "Location" = false := by decide
    simp [Reply.isLine, hname, h]
  have hlines : (upgrade r).lines = (upgrade r).framed.fields := by
    rw [Reply.lines, framed_upgrade]
    exact List.filter_eq_self.2 (List.forall_mem_cons.2 ⟨hline,
      List.forall_mem_singleton.2 (Reply.isLine_connection (alike_refl "Connection"))⟩)
  have hstatus : encode (Reply.statusText (upgrade r).status) = utf8 "HTTP/1.1 301 Moved Permanently" := by
    have hcode : (upgrade r).status = .movedPermanently := rfl
    rw [hcode]
    decide +kernel
  have hlength : encode (upgrade r).lengthField.text = utf8 "Content-Length: 0" := by
    have hfield : (upgrade r).lengthField = ⟨"Content-Length", showNat 0⟩ := rfl
    rw [hfield]
    decide +kernel
  have hlocation : encode (Field.text ⟨"Location", secureLocation r⟩) =
      utf8 "Location: https://" ++ (utf8 r.host ++ utf8 r.target) := by
    have hscheme : "Location" ++ ": " ++ secureLocation r = "Location: https://" ++ (r.host ++ r.target) := by
      refine String.toList_inj.1 ?_
      simp [secureLocation_eq]
    rw [Field.encode_text, hscheme]
    simp only [utf8, String.toList_append, encode_append]
  rw [Reply.texts, hlines, framed_upgrade]
  simp only [List.map_cons, List.map_nil, List.cons_append, List.nil_append, hstatus, hlocation,
    Field.encode_text, hlength, upgradeLines]
  rfl

/-! ### The run -/

/-- What the interceptor answers to a request that came plain. -/
def answer (r : Request) : Response := .redirect (secureLocation r) .movedPermanently

section

variable {t : TransportSecurity} {ctx : Context}

/-- A plain request is answered at once. -/
theorem before_of_plain (ht : t.behindProxy = false) (hc : ctx.request.tls = false) (configs : Configs) :
    t.interceptor.before configs ctx = (.respond (answer ctx.request), ctx) := by
  simp only [interceptor, ht, hc, Bool.or_self, Bool.false_eq_true, if_false, answer]

/-- The run ends at the interceptor, whatever is behind it. -/
theorem run_of_plain (ht : t.behindProxy = false) (hc : ctx.request.tls = false) (target : Target)
    (others : List Interceptor) : target.run (t.interceptor :: others) ctx =
      (answer ctx.request, ctx.record (Passage.event t.interceptor (answer ctx.request))) :=
  Target.run_cons_of_respond (before_of_plain ht hc target.configs)

/-- The interceptor is the only one that is called before the handler. -/
theorem entered_iff_of_plain (ht : t.behindProxy = false) (hc : ctx.request.tls = false)
    (configs : Configs) (others ran : List Interceptor) :
    Entered configs ⟨none, ctx⟩ (t.interceptor :: others) ran ↔ ran = [t.interceptor] := by
  have hperform := Progress.perform_before_of_respond (p := ⟨none, ctx⟩) (before_of_plain ht hc configs)
  have hentered := Entered.singleton rfl hperform others
  constructor
  · exact hentered.unique
  · rintro rfl
    exact hentered

/-- The handler is not called, nor is anybody else behind it. -/
theorem acts_of_plain (ht : t.behindProxy = false) (hc : ctx.request.tls = false) (target : Target) :
    target.acts [t.interceptor]
        (Progress.enter ⟨none, ctx⟩ target.configs [t.interceptor]).response.isSome =
      [.before t.interceptor target.configs, .commit t.interceptor target.configs] := by
  have hperform := Progress.perform_before_of_respond (p := ⟨none, ctx⟩)
    (before_of_plain ht hc target.configs)
  rw [Progress.enter_cons, Progress.enter_nil, hperform]
  rfl

/-- The answer is rendered, and nothing is sent but its location. -/
theorem encode_answer (hh : ctx.headers = .empty) {r : Request} (hf : Followable (secureLocation r)) :
    Service.encode render (answer r) ctx r.isKeepAlive = (upgrade r, ctx.world.recordAll []) := by
  have hstatus : 300 ≤ Status.movedPermanently.code ∧ Status.movedPermanently.code < 400 := by decide
  have hrender := render_redirect_eq_ok_iff.2 ⟨hstatus, hf, rfl⟩
  simp only [Service.encode, Service.renderSafely, answer, hrender, hh]
  rfl

end

end TransportSecurity

namespace Service

open TransportSecurity

/-- The service asks for encryption before anything else, no proxy ends the encryption for it, and its
renderer is the standard one. -/
structure AsksForEncryption (s : Service) (t : TransportSecurity) : Prop where
  renderer : s.renderer = render
  first : s.interceptors.head? = some t.interceptor
  direct : t.behindProxy = false

/-- The events of a request that is sent to encryption. -/
def upgradeEvents (t : TransportSecurity) (r : Request) : List Event :=
  [Passage.event t.interceptor (answer r), servedEvent r (upgrade r)]

/-- The service asks for encryption and does nothing else. -/
theorem serve_of_plain {s : Service} {t : TransportSecurity} (hs : s.AsksForEncryption t) {r : Request}
    (hr : r.tls = false) (hf : Followable (secureLocation r)) (world : World) :
    s.serve r world = (upgrade r, world.recordAll (upgradeEvents t r)) := by
  obtain ⟨others, hi⟩ := List.head?_eq_some_iff.1 hs.first
  have hserve : s.serve r world = s.conclude r ((Target.lookup s.routes r).run s.interceptors
      (.ofRequest r (Target.lookup s.routes r).captures world)) := rfl
  rw [hserve, hi, run_of_plain hs.direct hr, conclude, hs.renderer]
  simp only [Context.ofRequest]
  rw [encode_answer rfl hf]
  simp [World.recordAll, World.record, World.write, upgradeEvents, Context.record]

/-- How a request that did not come encrypted is answered where encryption is asked for first, whatever the
routes, the handlers and the other interceptors are. There is only one target and only one list of fields
that the bytes of the request can be said to have. The reply is written as a status line, a location, what
becomes of the connection and a length of zero, and nothing else; the location is that of the same host
and of the same target with encryption, byte for byte. No handler and no other interceptor is called, and
the world is left as it was but for two events. -/
theorem plain_requests_are_upgraded {s : Service} {t : TransportSecurity} (hs : s.AsksForEncryption t)
    {buffer : Bytes} {r : Request} {start : Nat} (hr : Request.parse buffer = .ok (r, start))
    (world : World) :
    ∃ fields target, (∀ other, Head.HasFields buffer other ↔ other = fields) ∧
      (∀ other, Head.HasTarget buffer other ↔ other = target) ∧
      s.serve r world = (upgrade r, world.recordAll (upgradeEvents t r)) ∧
      let lines := upgradeLines (Head.hostOf fields) target (upgrade r).connection
      let goal := Target.lookup s.routes r
      let begun : Progress := ⟨none, .ofRequest r goal.captures world⟩
      (upgrade r).wire = Client.lineEnd.intercalate lines ++ blankLine ∧
        splitLines (Client.lineEnd.intercalate lines) = lines ∧
        (∀ ran, Entered goal.configs begun s.interceptors ran ↔ ran = [t.interceptor]) ∧
        goal.acts [t.interceptor] (begun.enter goal.configs [t.interceptor]).response.isSome =
          [.before t.interceptor goal.configs, .commit t.interceptor goal.configs] := by
  obtain ⟨head, hscan, -⟩ := Request.scan_of_parse hr
  have hfields : Head.HasFields buffer head.fields := (Head.hasFields_iff hscan).2 rfl
  have htls := Request.tls_of_parse hr
  have hline := breaksLine_secureLocation hr
  have htexts := texts_upgrade hline
  rw [Request.utf8_host hr hfields] at htexts
  refine ⟨head.fields, utf8 r.target, fun _ => Head.hasFields_iff hscan, fun _ => Request.hasTarget_iff hr,
    serve_of_plain hs htls (followable_secureLocation hline) world, ?_⟩
  intro lines goal begun
  refine ⟨?_, ?_, ?_, acts_of_plain hs.direct htls goal⟩
  · have hwire := (upgrade r).wire_eq_intercalate
    rw [htexts] at hwire
    exact hwire
  · have hsplit := (upgrade r).splitLines_head
    rwa [htexts] at hsplit
  · obtain ⟨others, hi⟩ := List.head?_eq_some_iff.1 hs.first
    rw [hi]
    exact entered_iff_of_plain hs.direct htls goal.configs others

namespace Plain

/-- A service with a route and an interceptor that refuses everything behind the one that asks for
encryption. -/
def service : Service where
  renderer := render
  interceptors := [TransportSecurity.interceptor {},
    { name := "closed", before := fun _ ctx => (.reject .forbidden, ctx) }]
  routes := [.ofText "/a" .get (fun ctx => (.noContent, ctx)) .empty]
  distinct := Route.duplicate?_eq_none_iff.2 (by simp)

/-- A request for the route, with two question marks in its target. -/
def asked : Bytes := utf8 "GET /a?b?c= HTTP/1.1\r\nHost: example.com\r\n\r\n"

/-- The world before the request. -/
def world : World := ⟨0, fun _ => 0, 0, []⟩

/-- Both question marks are kept. -/
theorem target_kept_with_encryption :
    ∃ r start, Request.parse asked = .ok (r, start) ∧ (service.serve r world).1.wire =
      utf8 ("HTTP/1.1 301 Moved Permanently\r\nLocation: https://example.com/a?b?c=\r\n" ++
        "Connection: keep-alive\r\nContent-Length: 0\r\n\r\n") := by
  have hs : service.AsksForEncryption {} := ⟨rfl, rfl, rfl⟩
  have hr : Request.parse asked =
      .ok (⟨.get, "/a", some "b?c=", 1, ⟨[⟨"Host", "example.com"⟩]⟩, [], false⟩, 43) := by
    decide +kernel
  obtain ⟨fields, target, hfields, htarget, hserve, hwire, -⟩ := plain_requests_are_upgraded hs hr world
  have hhost := Request.utf8_host hr ((hfields fields).2 rfl)
  obtain rfl := (htarget _).1 ((Request.hasTarget_iff hr).2 rfl)
  refine ⟨_, _, hr, ?_⟩
  rw [hserve, hwire, ← hhost]
  decide +kernel

end Plain

end Service

end Palisade
