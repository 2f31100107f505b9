import Palisade.Service.Basic

/-!
# Connections

The bytes of a connection arrive in pieces of any size. Requests are taken from the front of what has
arrived and not been used; each is answered before the next is looked at. The connection ends when the
other side closes it, after a request that does not keep it, or when what arrives is no request.
-/
namespace Palisade

/-- What the bytes that have arrived allow. -/
inductive Arrival where
  /-- More bytes are needed. -/
  | incomplete
  /-- They are no request that can be served. -/
  | rejected (status : Status) (body : String) (event : Event)
  /-- A request is there, head and body, of so many bytes. -/
  | request (request : Request) (size : Nat)

namespace Arrival

/-- The body of a rejection of what is too large. -/
def tooLarge : String := "Request entity too large"

/-- How many bytes a request takes whose body begins at a position. -/
def sizeOf (r : Request) (start : Nat) : Nat := start + r.contentLength.getD 0

/-- Looks at bytes. -/
def ofBytes (buffer : Bytes) : Arrival :=
  if Request.maxSize < buffer.length then
    .rejected .payloadTooLarge tooLarge ⟨.warn, "request too large — sending 413", []⟩
  else match Request.parse buffer with
    | .error .incomplete => .incomplete
    | .error .bodyTooLarge =>
      .rejected .payloadTooLarge tooLarge ⟨.warn, "declared body too large — sending 413",
        [("error", RequestError.bodyTooLarge.message)]⟩
    | .error (.malformed offence) =>
      .rejected .badRequest ("Bad Request: " ++ (RequestError.malformed offence).message)
        ⟨.warn, "bad request — sending 400", [("error", (RequestError.malformed offence).message)]⟩
    | .ok (r, start) =>
      if buffer.length < sizeOf r start then .incomplete else .request r (sizeOf r start)

/-- A request takes at least one byte. -/
theorem size_pos_of_ofBytes {buffer : Bytes} {r : Request} {size : Nat}
    (h : ofBytes buffer = .request r size) : 0 < size ∧ size ≤ buffer.length := by
  unfold ofBytes at h
  split at h
  · simp at h
  split at h
  · simp at h
  · simp at h
  · simp at h
  · rename_i r' start hp
    have := (Request.start_pos_of_parse hp).1
    split at h
    · simp at h
    · simp only [Arrival.request.injEq] at h
      obtain ⟨rfl, rfl⟩ := h
      simp only [sizeOf] at *
      omega

end Arrival

/-- A request and its reply. -/
structure Exchange where
  /-- The request. -/
  request : Request
  /-- How many bytes of the connection it took. -/
  size : Nat
  /-- The reply. -/
  reply : Reply

/-- How a connection ends. -/
inductive Ending where
  /-- The other side closed it. -/
  | closedByPeer
  /-- The last request does not keep it. -/
  | closedAfterReply
  /-- What arrived is no request; this was answered. -/
  | rejected (reply : Reply)

/-- What happened on a connection. -/
structure Conversation where
  /-- Requests with their replies, in order. -/
  exchanges : List Exchange
  /-- How it ended. -/
  ending : Ending
  /-- The world it left. -/
  world : World

namespace Conversation

/-- The reply to what is no request. -/
def rejection (status : Status) (body : String) : Reply :=
  { status
    headers := (Headers.empty.insert "Content-Type" Rendering.plainType).insert
      "X-Content-Type-Options" "nosniff"
    body := Text.utf8 body
    keepAlive := false }

/-- The event of a request that is about to be answered. -/
def requestEvent (r : Request) : Event :=
  ⟨.debug, "dispatching request", [("method", r.method.name), ("path", r.path)]⟩

/-- The event of a connection that the other side closed. -/
def peerEvent : Event := ⟨.debug, "connection closed by peer", []⟩

/-- The event of a connection that is closed after a reply. -/
def closeEvent : Event := ⟨.debug, "Connection: close — shutting down", []⟩

/-- Answers a request that came over the connection. -/
def exchange (handle : Request → World → Reply × World) (tls : Bool) (r : Request) (size : Nat)
    (world : World) : Exchange × World :=
  let request := r.withTls tls
  let (reply, world) := handle request (world.record (requestEvent request))
  (⟨request, size, reply⟩, world.recordAll reply.reports)

/-- Puts an exchange in front of a conversation. -/
def after (e : Exchange) (c : Conversation) : Conversation :=
  { c with exchanges := e :: c.exchanges }

/-- Serves a connection of which `buffer` has arrived and `reads` will arrive. An empty read, like
the end of the reads, means that the other side closed it. -/
def converse (handle : Request → World → Reply × World) (tls : Bool) (buffer : Bytes)
    (reads : List Bytes) (world : World) : Conversation :=
  match _h : Arrival.ofBytes buffer with
  | .incomplete =>
    match reads with
    | [] => ⟨[], .closedByPeer, world.record peerEvent⟩
    | read :: rest =>
      if read.isEmpty then ⟨[], .closedByPeer, world.record peerEvent⟩
      else converse handle tls (buffer ++ read) rest world
  | .rejected status body event =>
    let reply := rejection status body
    ⟨[], .rejected reply, (world.record event).recordAll reply.reports⟩
  | .request r size =>
    let (e, left) := exchange handle tls r size world
    if r.isKeepAlive then after e (converse handle tls (buffer.drop size) reads left)
    else ⟨[e], .closedAfterReply, left.record closeEvent⟩
termination_by (reads.length, buffer.length)
decreasing_by
  · exact Prod.Lex.left _ _ (by simp)
  · have := Arrival.size_pos_of_ofBytes (by assumption : Arrival.ofBytes buffer = _)
    exact Prod.Lex.right _ (by simp; omega)

/-- The bytes that the other side receives. -/
def received (c : Conversation) : Bytes :=
  c.exchanges.flatMap (·.reply.wire) ++
    match c.ending with
    | .rejected reply => reply.wire
    | _ => []

end Conversation

end Palisade
