import Palisade.Proofs.Connection.Client
import Palisade.Proofs.Connection.Sequence
import Palisade.Proofs.Security.Readable
import Palisade.Service.Server

/-!
# What a client makes of a connection

The bytes that a server writes on a connection are read by a client that knows the methods of its
requests. The main statement says when the client has one answer for each request, in order and as it
was produced, with what ends the connection left behind them: exactly if no reply to a HEAD request has
a body. The encoding of a reply does not look at the method, so a HEAD request is answered with the
body that its handler or its error has, and everything behind this reply is read in the wrong place.
-/
namespace Palisade

namespace Conversation

/-- What is received are the replies in order, and then what ends the connection. -/
theorem received_eq (c : Conversation) :
    c.received = c.exchanges.flatMap (·.reply.wire) ++ c.ending.wire := by
  rw [received]
  cases c.ending <;> rfl

variable {handle : Request → World → Reply × World} {tls : Bool} {buffer : Bytes} {world : World}

/-- Where a request is incomplete, what arrives next stands behind it. -/
theorem converse_of_incomplete (h : Arrival.ofBytes buffer = .incomplete) {read : Bytes}
    (hne : read ≠ []) (rest : List Bytes) :
    converse handle tls buffer (read :: rest) world =
      converse handle tls (buffer ++ read) rest world := by
  rw [converse.eq_def]
  split <;> simp_all

/-- A request that is there is answered first. -/
theorem exchange_mem_of_request {r : Request} {size : Nat}
    (h : Arrival.ofBytes buffer = .request r size) (reads : List Bytes) :
    (exchange handle tls r size world).1 ∈ (converse handle tls buffer reads world).exchanges := by
  rw [converse.eq_def]
  split
  · simp_all
  · simp_all
  · rename_i r' size' h'
    rw [h] at h'
    simp only [Arrival.request.injEq] at h'
    obtain ⟨rfl, rfl⟩ := h'
    simp only
    split <;> exact List.mem_cons_self

/-- Every reply is what the handler made of its request. -/
theorem reply_of_mem (handle : Request → World → Reply × World) (tls : Bool) (buffer : Bytes)
    (reads : List Bytes) (world : World) :
    ∀ e ∈ (converse handle tls buffer reads world).exchanges,
      ∃ w, e.reply = (handle e.request w).1 := by
  have made : ∀ {r : Request} {size : Nat} {w : World} {e : Exchange} {left : World},
      exchange handle tls r size w = (e, left) → ∃ w, e.reply = (handle e.request w).1 := by
    intro r size w e left hx
    simp only [exchange, Prod.mk.injEq] at hx
    obtain ⟨rfl, -⟩ := hx
    exact ⟨_, rfl⟩
  fun_induction converse handle tls buffer reads world with
  | case1 => exact List.forall_mem_nil _
  | case2 => exact List.forall_mem_nil _
  | case3 _ _ _ _ _ _ ih => exact ih
  | case4 => exact List.forall_mem_nil _
  | case5 buffer reads world r size ha e left hx hk ih =>
    rw [after, List.forall_mem_cons]
    exact ⟨made hx, ih⟩
  | case6 buffer reads world r size ha e left hx hk =>
    rw [List.forall_mem_singleton]
    exact made hx

end Conversation

/-- What a client reads on a connection to a server with the standard renderer, whose interceptors keep
headers readable and whose handlers give the header of the encoding no value: one answer for each
request, in order and as it was produced, and behind them what ends the connection, exactly if no reply
to a HEAD request has a body. Replies without content and to unchanged pages never have one. A body that
the status rules out is not there, so that only those count that the method rules out. -/
theorem Server.reads_back_iff {s : Server} (hrender : s.service.renderer = render)
    (hi : ∀ i ∈ s.service.interceptors, i.KeepsReadable)
    (hu : ∀ r ∈ s.service.routes, r.handler.Unencoded) (reads : List Bytes) (world : World) :
    ∃ c, s.serve .reachable reads world = .ok c ∧
      (Client.readAll (c.exchanges.map (·.request.method)) c.received =
          some (c.exchanges.map (·.reply.produced), c.ending.wire) ↔
        ∀ e ∈ c.exchanges, e.request.method = .head → e.reply.body = []) := by
  refine ⟨_, rfl, ?_⟩
  generalize hc : Conversation.converse s.service.serve s.tls [] reads _ = c
  have hmade : ∀ e ∈ c.exchanges, ∃ w, e.reply = (s.service.serve e.request w).1 := by
    rw [← hc]
    exact Conversation.reply_of_mem _ _ _ _ _
  have hreadable : ∀ e ∈ c.exchanges, e.reply.headers.Readable := by
    intro e he
    obtain ⟨w, hw⟩ := hmade e he
    rw [hw]
    exact Service.readable_serve hrender hi hu e.request w
  have hbodyless : ∀ e ∈ c.exchanges,
      (Client.isBodyless e.request.method e.reply.status.code = true → e.reply.body = []) ↔
        (e.request.method = .head → e.reply.body = []) := by
    intro e he
    have hstatus : e.reply.status.code = 204 ∨ e.reply.status.code = 304 → e.reply.body = [] := by
      obtain ⟨w, hw⟩ := hmade e he
      rw [hw]
      exact Service.body_serve hrender
    simp only [Client.isBodyless, Bool.or_eq_true, beq_iff_eq, or_assoc]
    exact ⟨fun h hm => h (.inl hm), fun h hb => hb.elim h hstatus⟩
  have hpairs : ∀ p ∈ c.exchanges.map (fun e => (e.request.method, e.reply)), p.2.headers.Readable :=
    List.forall_mem_map.2 hreadable
  have hread := Client.readAll_wires_iff hpairs c.ending.wire
  rw [List.map_map, List.map_map, List.flatMap_map, List.forall_mem_map] at hread
  rw [c.received_eq]
  exact hread.trans (forall₂_congr hbodyless)

namespace Probing

/-- A handler that answers with the word ok. -/
def handler : Handler := HandlerScript.handler (fun _ => "") ⟨[], .plain⟩

/-- A server with the usual interceptors but that against forgery, and one page for GET and for HEAD. -/
def server : Server where
  service :=
    { renderer := render
      interceptors := [(Settings.transportSecurity {}).interceptor] ++ Settings.unchecked {} ++ [] ++ []
      routes := [.ofText "/" .get handler .empty, .ofText "/" .head handler .empty]
      distinct := Route.duplicate?_eq_none_iff.2 (by decide +kernel) }
  tls := true

/-- A request for the page, without what stands before its path. -/
def asked (method : String) : Bytes := Text.utf8 (method ++ " / HTTP/1.1\r\nHost: h\r\n\r\n")

/-- The first request, as the server reads it. -/
def first : Request := ⟨.head, "/", none, 1, ⟨[⟨"Host", "h"⟩]⟩, [], false⟩

/-- A world in which nothing has happened. -/
def world : World := ⟨0, fun _ => 0, 0, []⟩

/-- The handler gives the header of the encoding no value. -/
theorem unencoded_handler : handler.Unencoded :=
  HandlerScript.unencoded_handler _ (List.forall_mem_nil _)

/-- The first request is read from its bytes. -/
theorem ofBytes_asked : Arrival.ofBytes (asked "HEAD") = .request first 28 := by
  have hparse : Request.parse (asked "HEAD") = .ok (first, 28) := by decide +kernel
  have hsize : Arrival.sizeOf first 28 = 28 := by decide +kernel
  rw [Arrival.ofBytes_of_parse (by decide +kernel) hparse, hsize, if_neg (by decide +kernel)]

/-- The page is asked for with HEAD and then with GET. The reply to HEAD has the body, and the client
does not read the answers that were produced. -/
theorem not_reads_back :
    ∃ c, server.serve .reachable [asked "HEAD", asked "GET"] world = .ok c ∧
      (∃ e ∈ c.exchanges, e.request.method = .head ∧ e.reply.body = Text.utf8 "ok") ∧
      Client.readAll (c.exchanges.map (·.request.method)) c.received ≠
        some (c.exchanges.map (·.reply.produced), c.ending.wire) := by
  have hi : ∀ i ∈ server.service.interceptors, i.KeepsReadable := by
    have hs : Settings.interceptors { forgery := .disabled } [] = .ok server.service.interceptors := rfl
    exact Settings.keepsReadable hs
  have hu : ∀ r ∈ server.service.routes, r.handler.Unencoded :=
    List.forall_mem_cons.2 ⟨unencoded_handler, List.forall_mem_singleton.2 unencoded_handler⟩
  obtain ⟨c, hc, hiff⟩ := server.reads_back_iff rfl hi hu [asked "HEAD", asked "GET"] world
  have hfirst : ∃ e ∈ c.exchanges, e.request.method = .head ∧ e.reply.body = Text.utf8 "ok" := by
    rw [Server.serve, Except.ok.injEq] at hc
    subst hc
    rw [Conversation.converse_of_incomplete Conversation.ofBytes_nil (by decide +kernel)]
    exact ⟨_, Conversation.exchange_mem_of_request ofBytes_asked _, rfl, by decide +kernel⟩
  refine ⟨c, hc, hfirst, fun hread => ?_⟩
  obtain ⟨e, he, hmethod, hbody⟩ := hfirst
  have hempty := hiff.1 hread e he hmethod
  rw [hbody] at hempty
  exact absurd hempty (by decide)

end Probing

end Palisade
