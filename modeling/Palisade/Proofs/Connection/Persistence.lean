import Palisade.Proofs.Connection.Answers
import Palisade.Proofs.Http.Wire
import Palisade.Proofs.Security.Sendable

/-!
# Whether a connection goes on

Three places decide what becomes of a connection: the service and the loop of the connection, both by the
request, and the encoding of the reply, which tells the other side. Interceptors and handlers may write the
same header in any spelling and as often as they like. The main statement says that the bytes of each
reply say exactly once what the loop then does, and that a rejection says that the connection ends and is
the last that is written. Whether the bytes reach the other side is not covered.
-/
namespace Palisade

open Palisade.Text

/-! ### What the bytes of a reply say -/

/-- Read as a reply, the bytes have one field of this name, with this value: the first empty line ends the
head, and each of its lines but the first is a field. -/
def SaysOnce (s : Bytes) (name value : String) : Prop :=
  ∃ (head body : Bytes) (fields : List Field) (spelling : String), EndsHead s head body ∧
    (splitLines head).tail.map splitField = fields.map some ∧
    fields.filter (·.named name) = [⟨spelling, value⟩]

/-- If all names are tokens, a reply says once what becomes of its connection. -/
theorem Reply.saysOnce_connection {r : Reply}
    (h : ∀ f ∈ r.headers.fields, ResponseHeaders.isToken f.name = true) :
    SaysOnce r.wire "Connection" r.connection := by
  obtain ⟨spelling, hs⟩ := r.framing_framed.filter_connection
  refine ⟨_, r.body, _, spelling, r.endsHead_wire, ?_, hs⟩
  rw [splitLines_head]
  exact map_splitField_tail h

/-- A reply keeps the connection exactly if its request does. -/
theorem Service.keepAlive_serve (s : Service) (request : Request) (world : World) :
    (s.serve request world).1.keepAlive = request.isKeepAlive := rfl

namespace Conversation

/-- A rejection says once that the connection is closed. -/
theorem saysOnce_rejection (status : Status) (body : String) :
    SaysOnce (rejection status body).wire "Connection" "close" := by
  have htoken : ∀ f ∈ (rejection status body).headers.fields,
      ResponseHeaders.isToken f.name = true :=
    (by decide : ∀ f ∈ ((Headers.empty.insert "Content-Type" Rendering.plainType).insert
      "X-Content-Type-Options" "nosniff").fields, ResponseHeaders.isToken f.name = true)
  exact Reply.saysOnce_connection htoken

/-! ### What the loop does -/

/-- What is rejected is bad or too large. -/
theorem status_of_rejected {buffer : Bytes} {status : Status} {body : String} {event : Event}
    (h : Arrival.ofBytes buffer = .rejected status body event) :
    status = .badRequest ∨ status = .payloadTooLarge := by
  unfold Arrival.ofBytes at h
  split at h
  · cases h
    exact .inr rfl
  · split at h
    · cases h
    · cases h
      exact .inr rfl
    · cases h
      exact .inl rfl
    · split at h <;> cases h

/-- A connection ends with a rejection only if what arrived is bad or too large. -/
theorem exists_rejection (handle : Request → World → Reply × World) (tls : Bool) (buffer : Bytes)
    (reads : List Bytes) (world : World) {reply : Reply}
    (h : (converse handle tls buffer reads world).ending = .rejected reply) :
    ∃ status body, (status = .badRequest ∨ status = .payloadTooLarge) ∧
      reply = rejection status body := by
  fun_induction converse handle tls buffer reads world with
  | case1 => cases h
  | case2 => cases h
  | case3 _ _ _ _ _ _ ih => exact ih h
  | case4 buffer reads world status body event ha =>
    exact ⟨status, body, status_of_rejected ha, (Ending.rejected.inj h).symm⟩
  | case5 _ _ _ _ _ _ _ _ _ _ ih => exact ih h
  | case6 => cases h

/-- A connection that the server closes behind a reply ends with a request that does not keep it. -/
theorem exists_last_of_closed (handle : Request → World → Reply × World) (tls : Bool) (buffer : Bytes)
    (reads : List Bytes) (world : World)
    (h : (converse handle tls buffer reads world).ending = .closedAfterReply) :
    ∃ earlier e, (converse handle tls buffer reads world).exchanges = earlier ++ [e] ∧
      e.request.isKeepAlive = false := by
  fun_induction converse handle tls buffer reads world with
  | case1 => cases h
  | case2 => cases h
  | case3 _ _ _ _ _ _ ih => exact ih h
  | case4 => cases h
  | case5 buffer reads world r size ha first left hx hkeep ih =>
    obtain ⟨earlier, e, he, hk⟩ := ih h
    exact ⟨first :: earlier, e, by simp [after, he], hk⟩
  | case6 buffer reads world r size ha e left hx hkeep =>
    obtain ⟨hr, -⟩ := exchange_eq hx
    refine ⟨[], e, rfl, ?_⟩
    rw [hr]
    exact eq_false_of_ne_true hkeep

/-- Behind a request that keeps the connection there is another one, or the other side closes the
connection, or what arrives is rejected. -/
theorem goes_on_of_keepAlive (handle : Request → World → Reply × World) (tls : Bool) (buffer : Bytes)
    (reads : List Bytes) (world : World) {earlier later : List Exchange} {e : Exchange}
    (he : (converse handle tls buffer reads world).exchanges = earlier ++ e :: later)
    (hk : e.request.isKeepAlive = true) :
    later ≠ [] ∨ (converse handle tls buffer reads world).ending = .closedByPeer ∨
      ∃ reply, (converse handle tls buffer reads world).ending = .rejected reply := by
  cases hending : (converse handle tls buffer reads world).ending with
  | closedByPeer => exact .inr (.inl rfl)
  | rejected reply => exact .inr (.inr ⟨reply, rfl⟩)
  | closedAfterReply =>
    obtain ⟨before, last, hl, hkl⟩ := exists_last_of_closed handle tls buffer reads world hending
    refine .inl fun hlater => ?_
    rw [he, hlater] at hl
    obtain ⟨-, rfl⟩ := List.append_inj' hl rfl |>.imp_right List.singleton_inj.1
    rw [hk] at hkl
    cases hkl

end Conversation

/-- What is written on a connection says once, for each request, what the server then does. All that is
assumed of interceptors and handlers is that they bring in no field that cannot be sent, and no operation
on headers does, because each checks the name; which headers they write, how these are spelled and how
often does not matter, nor whether they replace all headers by others. The bytes of a reply have one field of the connection: to keep it if there is another exchange, or the other
side closes the connection, or what arrives next is rejected; and to close it if the server closes it
behind this reply. A rejection is of what is bad or too large; it says that the connection is closed, and
nothing is written behind it. -/
theorem Server.says_once_what_it_does {s : Server} (hi : ∀ i ∈ s.service.interceptors, i.KeepsSendable)
    (ho : ∀ r ∈ s.service.routes, r.handler.KeepsSendable) (reads : List Bytes) (world : World) :
    ∃ c, s.serve .reachable reads world = .ok c ∧
      c.received = c.exchanges.flatMap (·.reply.wire) ++ c.ending.wire ∧
      (∀ earlier e later, c.exchanges = earlier ++ e :: later →
        (e.request.isKeepAlive = true ∧ SaysOnce e.reply.wire "Connection" "keep-alive" ∧
          (later ≠ [] ∨ c.ending = .closedByPeer ∨ ∃ reply, c.ending = .rejected reply)) ∨
        (e.request.isKeepAlive = false ∧ SaysOnce e.reply.wire "Connection" "close" ∧
          later = [] ∧ c.ending = .closedAfterReply)) ∧
      ∀ reply, c.ending = .rejected reply →
        (reply.status = .badRequest ∨ reply.status = .payloadTooLarge) ∧
        SaysOnce reply.wire "Connection" "close" ∧
        c.received = c.exchanges.flatMap (·.reply.wire) ++ reply.wire := by
  refine ⟨_, rfl, Conversation.received_eq _, ?exchanges, ?rejection⟩
  case exchanges =>
    intro earlier e later he
    obtain ⟨w, hw⟩ := Conversation.reply_of_mem _ _ _ _ _ e <| by
      rw [he]
      exact List.mem_append_right earlier List.mem_cons_self
    have hsays : SaysOnce e.reply.wire "Connection" e.reply.connection := by
      rw [hw]
      exact Reply.saysOnce_connection (Service.isToken_of_mem_serve hi ho e.request w)
    have hkeep : e.reply.keepAlive = e.request.isKeepAlive := by
      rw [hw]
      exact s.service.keepAlive_serve e.request w
    rw [Reply.connection, hkeep] at hsays
    cases hk : e.request.isKeepAlive with
    | true =>
      rw [hk, if_pos rfl] at hsays
      exact .inl ⟨rfl, hsays, Conversation.goes_on_of_keepAlive _ _ _ _ _ he hk⟩
    | false =>
      rw [hk, if_neg Bool.false_ne_true] at hsays
      exact .inr ⟨rfl, hsays, Conversation.last_of_not_keepAlive _ _ _ _ _ he hk⟩
  case rejection =>
    intro reply he
    obtain ⟨status, body, hstatus, rfl⟩ := Conversation.exists_rejection _ _ _ _ _ he
    refine ⟨hstatus, Conversation.saysOnce_rejection status body, ?_⟩
    rw [Conversation.received_eq, he, Ending.wire]

namespace Persisting

/-- An interceptor that writes the header of the connection before the handler and behind it. -/
def meddling : RecorderScript where
  name := "meddling"
  before := [.set "Connection" "upgrade", .add "connection" "close"]
  answer := none
  commit := [.add "CONNECTION" "keep-alive"]
  replace := none

/-- A handler that writes the header of the connection. -/
def script : HandlerScript := ⟨[.header (.add "cOnNeCtIoN" "close, keep-alive")], .plain⟩

/-- A server on which, behind the usual interceptors, another one and the handler write the header of the
connection. -/
def server : Server where
  service :=
    { renderer := render
      interceptors := Probing.server.service.interceptors ++ [meddling.interceptor fun _ => ""]
      routes := [.ofText "/" .get (script.handler fun _ => "") .empty]
      distinct := Route.duplicate?_eq_none_iff.2 (by decide +kernel) }
  tls := true

/-- A request for the page. -/
def asked (version : String) : Bytes := utf8 ("GET / HTTP/" ++ version ++ "\r\n\r\n")

/-- The request, as the server reads it. -/
def request (minor : Nat) : Request := ⟨.get, "/", none, minor, ⟨[]⟩, [], false⟩

/-- The two requests are read from their bytes. -/
theorem ofBytes_asked : Arrival.ofBytes (asked "1.1") = .request (request 1) 18 ∧
    Arrival.ofBytes (asked "1.0") = .request (request 0) 18 := by
  constructor
  · have hparse : Request.parse (asked "1.1") = .ok (request 1, 18) := by decide +kernel
    rw [Arrival.ofBytes_of_parse (by decide +kernel) hparse, if_neg (by decide +kernel)]
    rfl
  · have hparse : Request.parse (asked "1.0") = .ok (request 0, 18) := by decide +kernel
    rw [Arrival.ofBytes_of_parse (by decide +kernel) hparse, if_neg (by decide +kernel)]
    rfl

/-- Both requests are taken, one after the other. -/
theorem takes_asked : Conversation.takes [] [asked "1.1", asked "1.0"] =
    [⟨asked "1.1", request 1, 18⟩, ⟨asked "1.0", request 0, 18⟩] := by
  have hempty : (asked "1.1").drop 18 = [] := by decide +kernel
  rw [Conversation.takes_of_incomplete_cons Conversation.ofBytes_nil (by decide +kernel),
    List.nil_append, Conversation.takes_of_request ofBytes_asked.1, hempty, if_pos (by decide),
    Conversation.takes_of_incomplete_cons Conversation.ofBytes_nil (by decide +kernel),
    List.nil_append, Conversation.takes_of_request ofBytes_asked.2, if_neg (by decide)]

/-- A request that keeps the connection and one that does not. The replies say so, and say nothing else of
the connection. -/
theorem keeps_then_closes :
    (∀ i ∈ server.service.interceptors, i.KeepsSendable) ∧
    (∀ r ∈ server.service.routes, r.handler.KeepsSendable) ∧
    ∃ c first second,
      server.serve .reachable [asked "1.1", asked "1.0"] Probing.world = .ok c ∧
      c.exchanges = [first, second] ∧ c.ending = .closedAfterReply ∧
      SaysOnce first.reply.wire "Connection" "keep-alive" ∧
      SaysOnce second.reply.wire "Connection" "close" := by
  have hi : ∀ i ∈ server.service.interceptors, i.KeepsSendable := by
    have hs : Settings.interceptors { forgery := .disabled } [] =
        .ok Probing.server.service.interceptors := rfl
    exact List.forall_mem_append.2 ⟨Settings.keepsSendable hs,
      List.forall_mem_singleton.2 (meddling.operates _).keepsSendable⟩
  have ho : ∀ r ∈ server.service.routes, r.handler.KeepsSendable :=
    List.forall_mem_singleton.2
      (Handler.Operates.keepsSendable (HandlerScript.operates_handler _ script))
  refine ⟨hi, ho, ?_⟩
  obtain ⟨c, hc, -, hsays, -⟩ :=
    server.says_once_what_it_does hi ho [asked "1.1", asked "1.0"] Probing.world
  obtain ⟨first, second, he, hfirst, hsecond⟩ : ∃ first second, c.exchanges = [first, second] ∧
      first.request = (request 1).withTls true ∧ second.request = (request 0).withTls true := by
    have hseen : c.exchanges.map Exchange.request =
        [(request 1).withTls true, (request 0).withTls true] := by
      rw [Server.serve, Except.ok.injEq] at hc
      rw [← hc]
      exact (Conversation.seen_converse _ _ _ _).trans (by rw [takes_asked]; rfl)
    obtain ⟨first, _, he, hfirst, hrest⟩ := List.map_eq_cons_iff.1 hseen
    obtain ⟨second, _, rfl, hsecond, hnone⟩ := List.map_eq_cons_iff.1 hrest
    obtain rfl := List.map_eq_nil_iff.1 hnone
    exact ⟨first, second, he, hfirst, hsecond⟩
  refine ⟨c, first, second, hc, he, ?_⟩
  have hone := hsays [] first [second] he
  have htwo := hsays [first] second [] he
  rw [hfirst] at hone
  rw [hsecond] at htwo
  rcases hone with ⟨-, hone, -⟩ | ⟨hk, -⟩
  · rcases htwo with ⟨hk, -⟩ | ⟨-, htwo, -, hending⟩
    · exact absurd hk (by decide)
    · exact ⟨hending, hone, htwo⟩
  · exact absurd hk (by decide)

end Persisting

end Palisade
