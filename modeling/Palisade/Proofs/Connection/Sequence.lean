import Palisade.Proofs.Connection.Bodies

/-!
# Requests of a stream, one behind the other

A stream that is there as a whole can be read from front to end: a head, as many bytes as it declares,
and so on behind them for as long as the requests keep the connection. A connection sees its stream only
in pieces, and looks again whenever a piece has arrived. The main statement says that it finds the same
requests at the same bytes, answers each of them once and ends in the same way, whatever the pieces.
Bodies are left out: they do depend on the pieces. Streams as long as the largest request are not
covered.
-/
namespace Palisade

/-- What there is to be found in a stream. -/
structure Reading where
  /-- The requests without their bodies, each with how many bytes it takes. -/
  requests : List (Request × Nat)
  /-- How the connection ends. -/
  ending : Ending

/-! ### A look at a complete head -/

namespace Arrival

variable {taken rest : Bytes} {head : Head}

/-- Too long a declared body is rejected. -/
theorem ofBytes_of_large (hl : (taken ++ rest).length ≤ Request.maxSize)
    (h : Head.scan (taken ++ rest) = .ok (head, rest))
    (large : Request.maxSize < taken.length + (Request.ofHead head).contentLength.getD 0) :
    ∃ event, ofBytes (taken ++ rest) = .rejected .payloadTooLarge tooLarge event := by
  have hn : ¬ Request.maxSize < (taken ++ rest).length := by omega
  have hstart : (taken ++ rest).length - rest.length = taken.length := by simp
  obtain ⟨n, hc⟩ : ∃ n, (Request.ofHead head).contentLength = some n := by
    cases hc : (Request.ofHead head).contentLength with
    | some n => exact ⟨n, rfl⟩
    | none =>
      simp only [hc, Option.getD_none, List.length_append] at large hl
      omega
  rw [hc, Option.getD_some] at large
  unfold ofBytes
  rw [if_neg hn, Request.parse_of_scan h]
  simp only [hstart, hc, Option.getD_some, if_pos large]
  exact ⟨_, rfl⟩

/-- A head whose declared body fits is a request, which is there when its body is. -/
theorem ofBytes_of_fitting (hl : (taken ++ rest).length ≤ Request.maxSize)
    (h : Head.scan (taken ++ rest) = .ok (head, rest))
    (fits : taken.length + (Request.ofHead head).contentLength.getD 0 ≤ Request.maxSize) :
    ∃ r, r.bare = Request.ofHead head ∧
      ofBytes (taken ++ rest) =
        if rest.length < (Request.ofHead head).contentLength.getD 0 then .incomplete
        else .request r (taken.length + (Request.ofHead head).contentLength.getD 0) := by
  have hstart : (taken ++ rest).length - rest.length = taken.length := by simp
  have htotal : (taken ++ rest).length = taken.length + rest.length := List.length_append
  have hfits : ¬ Request.maxSize <
      taken.length + (Request.ofHead head).contentLength.getD rest.length := by
    cases hc : (Request.ofHead head).contentLength with
    | some n =>
      simp only [hc, Option.getD_some] at fits ⊢
      omega
    | none =>
      simp only [Option.getD_none]
      omega
  obtain ⟨r, hb, hp⟩ : ∃ r : Request, r.bare = Request.ofHead head ∧
      Request.parse (taken ++ rest) = .ok (r, taken.length) := by
    have hp := Request.parse_of_scan h
    simp only [hstart, if_neg hfits] at hp
    exact ⟨{ Request.ofHead head with body := _ }, rfl, hp⟩
  have hsize : sizeOf r taken.length =
      taken.length + (Request.ofHead head).contentLength.getD 0 := by
    rw [sizeOf, ← Request.contentLength_bare, hb]
  refine ⟨r, hb, ?_⟩
  rw [ofBytes_of_parse hl hp, hsize, htotal]
  simp only [Nat.add_lt_add_iff_left]

end Arrival

namespace Reading

/-- Reads a stream that is there as a whole. -/
def ofStream (tls : Bool) (stream : Bytes) : Reading :=
  match _h : Head.scan stream with
  | .error .incomplete => ⟨[], .closedByPeer⟩
  | .error (.offence o) =>
    ⟨[], .rejected (Conversation.rejection .badRequest
      ("Bad Request: " ++ (RequestError.malformed o).message))⟩
  | .ok (head, rest) =>
    let request := (Request.ofHead head).withTls tls
    let declared := request.contentLength.getD 0
    let size := stream.length - rest.length + declared
    if Request.maxSize < size then
      ⟨[], .rejected (Conversation.rejection .payloadTooLarge Arrival.tooLarge)⟩
    else if rest.length < declared then ⟨[], .closedByPeer⟩
    else if request.isKeepAlive then
      let others := ofStream tls (rest.drop declared)
      ⟨(request, size) :: others.requests, others.ending⟩
    else ⟨[(request, size)], .closedAfterReply⟩
termination_by stream.length
decreasing_by
  obtain ⟨taken, hne, rfl⟩ := Head.scan_takes _ _ _ (by assumption : Head.scan stream = _)
  have hpos := List.length_pos_iff.2 hne
  simp only [List.length_append, List.length_drop]
  omega

/-- Puts a request in front of what is found behind it. -/
def after (first : Request × Nat) (others : Reading) : Reading :=
  ⟨first :: others.requests, others.ending⟩

/-- An unfinished head is the end of a stream that is there as a whole. -/
theorem ofStream_of_incomplete (tls : Bool) {stream : Bytes}
    (h : Head.scan stream = .error .incomplete) : ofStream tls stream = ⟨[], .closedByPeer⟩ := by
  rw [ofStream.eq_def]
  split <;> simp_all

/-- A stream whose head offends is rejected at once. -/
theorem ofStream_of_offence (tls : Bool) {stream : Bytes} {o : Head.Offence}
    (h : Head.scan stream = .error (.offence o)) :
    ofStream tls stream = ⟨[], .rejected (Conversation.rejection .badRequest
      ("Bad Request: " ++ (RequestError.malformed o).message))⟩ := by
  rw [ofStream.eq_def]
  split <;> simp_all

/-- What is found in a stream that begins with a complete head. -/
theorem ofStream_of_scan (tls : Bool) {taken rest : Bytes} {head : Head}
    (h : Head.scan (taken ++ rest) = .ok (head, rest)) :
    let request := (Request.ofHead head).withTls tls
    let declared := request.contentLength.getD 0
    ofStream tls (taken ++ rest) =
      if Request.maxSize < taken.length + declared then
        ⟨[], .rejected (Conversation.rejection .payloadTooLarge Arrival.tooLarge)⟩
      else if rest.length < declared then ⟨[], .closedByPeer⟩
      else if request.isKeepAlive then
        after (request, taken.length + declared) (ofStream tls (rest.drop declared))
      else ⟨[(request, taken.length + declared)], .closedAfterReply⟩ := by
  intro request declared
  have hstart : (taken ++ rest).length - rest.length = taken.length := by simp
  rw [ofStream.eq_def]
  split
  · simp_all
  · simp_all
  · rename_i head' rest' h'
    rw [h] at h'
    simp only [Except.ok.injEq, Prod.mk.injEq] at h'
    obtain ⟨rfl, rfl⟩ := h'
    simp only [hstart]
    rfl

/-- What is found in a stream is what a look at all of it finds, and then what is found behind it. -/
theorem ofStream_eq (tls : Bool) {stream : Bytes} (hl : stream.length ≤ Request.maxSize) :
    ofStream tls stream =
      match Arrival.ofBytes stream with
      | .incomplete => ⟨[], .closedByPeer⟩
      | .rejected status body _ => ⟨[], .rejected (Conversation.rejection status body)⟩
      | .request r size =>
        if r.isKeepAlive then after (r.bare.withTls tls, size) (ofStream tls (stream.drop size))
        else ⟨[(r.bare.withTls tls, size)], .closedAfterReply⟩ := by
  have hn : ¬ Request.maxSize < stream.length := by omega
  cases hs : Head.scan stream with
  | error stop =>
    rw [Arrival.ofBytes, if_neg hn]
    cases stop with
    | incomplete =>
      rw [ofStream_of_incomplete tls hs]
      simp only [Request.parse, hs]
    | offence o =>
      rw [ofStream_of_offence tls hs]
      simp only [Request.parse, hs]
  | ok p =>
    obtain ⟨head, rest⟩ := p
    obtain ⟨taken, -, rfl⟩ := Head.scan_takes _ _ _ hs
    have hdrop : (taken ++ rest).drop (taken.length + (Request.ofHead head).contentLength.getD 0) =
        rest.drop ((Request.ofHead head).contentLength.getD 0) := by
      rw [← List.drop_drop, List.drop_left]
    rw [ofStream_of_scan tls hs]
    by_cases large : Request.maxSize < taken.length + (Request.ofHead head).contentLength.getD 0
    · obtain ⟨event, ha⟩ := Arrival.ofBytes_of_large hl hs large
      rw [ha]
      exact if_pos large
    · obtain ⟨r, hb, ha⟩ := Arrival.ofBytes_of_fitting hl hs (by omega)
      have hk : r.isKeepAlive = (Request.ofHead head).isKeepAlive := by
        rw [← Request.isKeepAlive_bare, hb]
      rw [ha]
      refine (if_neg large).trans ?_
      by_cases short : rest.length < (Request.ofHead head).contentLength.getD 0
      · rw [if_pos short]
        exact if_pos short
      · rw [if_neg short]
        refine (if_neg short).trans ?_
        simp only [hb, hk, hdrop]
        rfl

end Reading

/-- The bytes that are written when a connection ends. -/
def Ending.wire : Ending → Bytes
  | .rejected reply => reply.wire
  | _ => []

namespace Conversation

/-- What a connection found in its stream, apart from bodies. -/
def reading (c : Conversation) : Reading :=
  ⟨c.exchanges.map fun e => (e.request.bare, e.size), c.ending⟩

/-- What is read of a conversation is what its first exchange read, and the rest. -/
theorem reading_after (e : Exchange) (c : Conversation) :
    (after e c).reading = Reading.after (e.request.bare, e.size) c.reading := rfl

/-- Whatever has arrived, and in whatever pieces the rest will: a connection finds what there is to be
found in the two together. -/
theorem reading_converse (handle : Request → World → Reply × World) (tls : Bool) {buffer : Bytes}
    {reads : List Bytes} (world : World) (hne : ∀ read ∈ reads, read ≠ [])
    (hl : (buffer ++ reads.flatten).length ≤ Request.maxSize) :
    (converse handle tls buffer reads world).reading =
      Reading.ofStream tls (buffer ++ reads.flatten) := by
  fun_induction converse handle tls buffer reads world with
  | case1 buffer world ha =>
    rw [List.flatten_nil, List.append_nil] at hl ⊢
    rw [Reading.ofStream_eq tls hl, ha]
    rfl
  | case2 buffer world ha read rest he =>
    exact absurd (List.isEmpty_iff.1 he) (hne read List.mem_cons_self)
  | case3 buffer world ha read rest he ih =>
    rw [List.flatten_cons, ← List.append_assoc] at hl ⊢
    exact ih (fun read' hm => hne read' (List.mem_cons_of_mem _ hm)) hl
  | case4 buffer reads world status body event ha =>
    rw [Reading.ofStream_eq tls hl, Arrival.ofBytes_append_of_rejected ha hl]
    rfl
  | case5 buffer reads world r size ha e left hx hk ih =>
    obtain ⟨r', ha', hb⟩ := Arrival.ofBytes_append_of_request ha hl
    have hsize := (Arrival.size_pos_of_ofBytes ha).2
    have hdrop : (buffer ++ reads.flatten).drop size = buffer.drop size ++ reads.flatten :=
      List.drop_append_of_le_length hsize
    have hl' : (buffer.drop size ++ reads.flatten).length ≤ Request.maxSize := by
      simp only [List.length_append, List.length_drop] at hl ⊢
      omega
    have hk' : r'.isKeepAlive = true := by rw [Request.isKeepAlive_eq_of_bare_eq hb, hk]
    obtain ⟨hr, hs⟩ := exchange_eq hx
    rw [Reading.ofStream_eq tls hl, ha', reading_after, ih hne hl', hr, hs]
    simp only [hk', if_true, hb, hdrop]
    rfl
  | case6 buffer reads world r size ha e left hx hk =>
    obtain ⟨r', ha', hb⟩ := Arrival.ofBytes_append_of_request ha hl
    have hk' : r'.isKeepAlive = r.isKeepAlive := Request.isKeepAlive_eq_of_bare_eq hb
    obtain ⟨hr, hs⟩ := exchange_eq hx
    rw [Reading.ofStream_eq tls hl, ha']
    simp only [hk', hk, hb, reading, List.map_cons, List.map_nil, hr, hs]
    rfl

/-! ### Replies -/

/-- The replies of a handler to requests, one after the other. -/
def answers (handle : Request → World → Reply × World) : World → List Request → List Reply
  | _, [] => []
  | world, r :: rest =>
    let (reply, next) := handle r (world.record (requestEvent r))
    reply :: answers handle (next.recordAll reply.reports) rest

/-- A connection answers each request that it hands to its handler, in order. -/
theorem replies_converse (handle : Request → World → Reply × World) (tls : Bool) (buffer : Bytes)
    (reads : List Bytes) (world : World) :
    (converse handle tls buffer reads world).exchanges.map Exchange.reply =
      answers handle world (converse handle tls buffer reads world).seen := by
  fun_induction converse handle tls buffer reads world with
  | case1 => rfl
  | case2 => rfl
  | case3 _ _ _ _ _ _ ih => exact ih
  | case4 => rfl
  | case5 buffer reads world r size ha e left hx hk ih =>
    simp only [exchange, Prod.mk.injEq] at hx
    obtain ⟨rfl, rfl⟩ := hx
    simp only [after, seen, List.map_cons, answers] at ih ⊢
    rw [ih]
  | case6 buffer reads world r size ha e left hx hk =>
    simp only [exchange, Prod.mk.injEq] at hx
    obtain ⟨rfl, rfl⟩ := hx
    rfl

/-- Nothing is answered behind a request that does not keep the connection. -/
theorem last_of_not_keepAlive (handle : Request → World → Reply × World) (tls : Bool) (buffer : Bytes)
    (reads : List Bytes) (world : World) {earlier later : List Exchange} {e : Exchange}
    (he : (converse handle tls buffer reads world).exchanges = earlier ++ e :: later)
    (hk : e.request.isKeepAlive = false) :
    later = [] ∧ (converse handle tls buffer reads world).ending = .closedAfterReply := by
  fun_induction converse handle tls buffer reads world generalizing earlier with
  | case1 => simp at he
  | case2 => simp at he
  | case3 _ _ _ _ _ _ ih => exact ih he
  | case4 => simp at he
  | case5 buffer reads world r size ha first left hx hkeep ih =>
    obtain ⟨hr, -⟩ := exchange_eq hx
    cases earlier with
    | nil =>
      simp only [after, List.nil_append, List.cons.injEq] at he
      have hkeep' : e.request.isKeepAlive = true := by
        rw [← he.1, hr]
        exact hkeep
      simp [hk] at hkeep'
    | cons first' earlier =>
      simp only [after, List.cons_append, List.cons.injEq] at he
      exact ih he.2
  | case6 buffer reads world r size ha first left hx hkeep =>
    cases earlier with
    | nil =>
      simp only [List.nil_append, List.cons.injEq] at he
      exact ⟨he.2.symm, rfl⟩
    | cons first' earlier => simp at he

/-- A connection reads its stream from front to end. In whatever pieces the stream arrives, the requests
that are handed to the handler, apart from their bodies, the bytes that each of them takes, and the way
the connection ends are those of the whole stream. The handler answers each of the requests once and in
order; the replies, and then the rejection if there is one, are what the other side receives; and behind
a request that does not keep the connection there is no other. -/
theorem reads_in_sequence (handle : Request → World → Reply × World) (tls : Bool) (world : World)
    {stream : Bytes} (hl : stream.length < Request.maxSize) {reads : List Bytes}
    (hr : Splits reads stream) :
    let c := converse handle tls [] reads world
    c.reading = Reading.ofStream tls stream ∧
      (∀ reads', Splits reads' stream → (converse handle tls [] reads' world).reading = c.reading) ∧
      c.exchanges.map Exchange.reply = answers handle world c.seen ∧
      c.received = (answers handle world c.seen).flatMap Reply.wire ++ c.ending.wire ∧
      ∀ earlier e later, c.exchanges = earlier ++ e :: later → e.request.isKeepAlive = false →
        later = [] ∧ c.ending = .closedAfterReply := by
  have whole : ∀ reads, Splits reads stream →
      (converse handle tls [] reads world).reading = Reading.ofStream tls stream := by
    intro reads hr
    have hle : ([] ++ reads.flatten).length ≤ Request.maxSize := by
      rw [List.nil_append, hr.flatten_eq]
      omega
    have hc := reading_converse handle tls world hr.ne_nil hle
    rwa [List.nil_append, hr.flatten_eq] at hc
  have replies := replies_converse handle tls [] reads world
  intro c
  refine ⟨whole reads hr, ?_, replies, ?_, ?_⟩
  · intro reads' hr'
    exact (whole reads' hr').trans (whole reads hr).symm
  · have hwires : c.exchanges.flatMap (·.reply.wire) =
        (answers handle world c.seen).flatMap Reply.wire := by
      rw [← replies, List.flatMap_map]
    rw [received, hwires]
    cases c.ending <;> rfl
  · intro earlier e later he hk
    exact last_of_not_keepAlive handle tls [] reads world he hk

/-- Two requests that arrive in three pieces, the second of which has the end of one and the start of
the other. -/
theorem pipelined_in_sequence :
    let reads := [pipelined.take 10, (pipelined.drop 10).take 30, pipelined.drop 40]
    pipelined.length < Request.maxSize ∧ Splits reads pipelined ∧
      (converse (fun _ w => (rejection .badRequest "", w)) false [] reads
        ⟨0, fun _ => 0, 0, []⟩).reading = Reading.ofStream false pipelined := by
  intro reads
  have hl : pipelined.length < Request.maxSize := by decide +kernel
  have hs : Splits reads pipelined := ⟨by decide +kernel, by decide +kernel⟩
  exact ⟨hl, hs, (reads_in_sequence _ false _ hl hs).1⟩

end Conversation

end Palisade
