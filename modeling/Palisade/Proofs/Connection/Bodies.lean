import Palisade.Proofs.Connection.Takes

/-!
# Bodies and the bytes removed for them

A stream may reach the connection in pieces of any size. The bodies that a handler sees are the bytes
that are removed behind the heads, whatever the pieces, exactly for the delimited streams: those in
which nothing follows a head that declares no length. For these the requests do not depend on the
pieces either. In any other stream some piece can hold the start of the next request, which then is a
body as well as a request. Streams as long as the largest request are not covered.
-/
namespace Palisade.Conversation

/-- The stream as it arrives: in pieces that are not empty. -/
structure Splits (reads : List Bytes) (stream : Bytes) : Prop where
  flatten_eq : reads.flatten = stream
  ne_nil : ∀ read ∈ reads, read ≠ []

/-- Nothing follows a head that declares no length. -/
def DelimitedStream (stream : Bytes) : Prop := ∀ t ∈ takes stream [], t.Delimited

/-- What has not begun is incomplete. -/
theorem ofBytes_nil : Arrival.ofBytes [] = .incomplete := rfl

/-- A stream can arrive in one piece. -/
theorem exists_splits (stream : Bytes) :
    ∃ reads, Splits reads stream ∧ takes [] reads = takes stream [] := by
  by_cases hs : stream = []
  · subst hs
    refine ⟨[], ⟨rfl, ?_⟩, rfl⟩
    simp
  · refine ⟨[stream], ⟨?_, ?_⟩, ?_⟩
    · simp
    · simpa using hs
    · rw [takes_of_incomplete_cons ofBytes_nil hs, List.nil_append]

/-- The requests taken from the pieces of a stream beside those taken from the whole of it. -/
theorem Splits.earlier {reads : List Bytes} {stream : Bytes} (h : Splits reads stream)
    (hl : stream.length < Request.maxSize) :
    List.Forall₂ Take.Earlier (takes [] reads) (takes stream []) := by
  have hle : ([] ++ reads.flatten).length ≤ Request.maxSize := by
    rw [List.nil_append, h.flatten_eq]
    omega
  have he := takes_earlier h.ne_nil hle
  rwa [List.nil_append, h.flatten_eq] at he

/-- The front of the stream, request by request. -/
theorem Splits.tiles {reads : List Bytes} {stream : Bytes} (h : Splits reads stream) :
    ∃ left, stream = (takes [] reads).flatMap (fun t => t.head ++ t.removed) ++ left := by
  obtain ⟨left, hl⟩ := flatMap_takes [] reads
  rw [List.nil_append, h.flatten_eq] at hl
  exact ⟨left, hl⟩

/-- Requests taken earlier than delimited ones are delimited, and are the same requests. -/
theorem delimited_of_earlier {ts later : List Take} (he : List.Forall₂ Take.Earlier ts later)
    (hs : ∀ t ∈ ts, t.Sound) (hw : ∀ t ∈ later, t.Sound) (hd : ∀ t ∈ later, t.Delimited) :
    (∀ t ∈ ts, t.Delimited) ∧ ts.map Take.request = later.map Take.request := by
  induction he with
  | nil =>
    constructor
    · simp
    · rfl
  | cons hab _ ih =>
    rw [List.forall_mem_cons] at hs hw hd
    obtain ⟨hrest, hmap⟩ := ih hs.2 hw.2 hd.2
    constructor
    · rw [List.forall_mem_cons]
      exact ⟨hab.delimited hd.1, hrest⟩
    · rw [List.map_cons, List.map_cons, hmap, hab.request_eq hs.1 hw.1 hd.1]

/-- Every request of a delimited stream is delimited when it is taken, and is the request that the
whole stream has in its place. -/
theorem Splits.delimited {reads : List Bytes} {stream : Bytes} (h : Splits reads stream)
    (hl : stream.length < Request.maxSize) (hd : DelimitedStream stream) :
    (∀ t ∈ takes [] reads, t.Delimited) ∧
      (takes [] reads).map Take.request = (takes stream []).map Take.request :=
  delimited_of_earlier (h.earlier hl) (fun _ ht => sound_of_mem_takes ht)
    (fun _ ht => sound_of_mem_takes ht) hd

/-- The bodies are the removed bytes in every splitting exactly if the stream is delimited. -/
theorem forall_body_eq_removed_iff {stream : Bytes} (hl : stream.length < Request.maxSize) :
    (∀ reads, Splits reads stream → ∀ t ∈ takes [] reads, t.request.body = t.removed) ↔
      DelimitedStream stream := by
  constructor
  · intro h t ht
    obtain ⟨reads, hr, he⟩ := exists_splits stream
    rw [← he] at ht
    exact (sound_of_mem_takes ht).body_eq_removed_iff.1 (h reads hr t ht)
  · intro hd reads hr t ht
    have ht' := (hr.delimited hl hd).1 t ht
    exact (sound_of_mem_takes ht).body_eq_removed_iff.2 ht'

/-- The requests that a handler sees, in order. -/
def seen (c : Conversation) : List Request := c.exchanges.map Exchange.request

/-- What a handler sees on a connection are the requests that are taken from what arrives, marked as
encrypted or not. -/
theorem seen_converse (handle : Request → World → Reply × World) (tls : Bool) (reads : List Bytes)
    (world : World) :
    (converse handle tls [] reads world).seen =
      ((takes [] reads).map Take.request).map fun r => r.withTls tls := by
  have he := congrArg (List.map Prod.fst) (exchanges_converse handle tls [] reads world)
  simpa [seen, Function.comp_def] using he

/-- What a connection hands to its handler, and what it removes for it. Whatever the handler answers,
it sees the requests taken from the pieces; what is removed for them is the front of the stream; a
body is what is removed behind its head exactly if the request is delimited when it is taken. This
holds of all requests in all splittings exactly for the delimited streams, and for these the requests
are the same in all splittings. -/
theorem bodies_are_removed_iff_delimited (handle : Request → World → Reply × World) (tls : Bool)
    (world : World) {stream : Bytes} (hl : stream.length < Request.maxSize) :
    (∀ reads, Splits reads stream →
      (converse handle tls [] reads world).exchanges.map (fun e => (e.request, e.size)) =
          (takes [] reads).map (fun t => (t.request.withTls tls, t.size)) ∧
        (∃ left, stream = (takes [] reads).flatMap (fun t => t.head ++ t.removed) ++ left) ∧
        ∀ t ∈ takes [] reads, t.request.body = t.removed ↔ t.Delimited) ∧
      ((∀ reads, Splits reads stream → ∀ t ∈ takes [] reads, t.request.body = t.removed) ↔
        DelimitedStream stream) ∧
      (DelimitedStream stream → ∀ reads reads', Splits reads stream → Splits reads' stream →
        (converse handle tls [] reads world).seen = (converse handle tls [] reads' world).seen) := by
  refine ⟨?_, forall_body_eq_removed_iff hl, ?_⟩
  · intro reads hr
    refine ⟨exchanges_converse handle tls [] reads world, hr.tiles, ?_⟩
    intro t ht
    exact (sound_of_mem_takes ht).body_eq_removed_iff
  · intro hd reads reads' hr hr'
    rw [seen_converse, seen_converse, (hr.delimited hl hd).2, (hr'.delimited hl hd).2]

/-- A request without a declared length, and another one behind it. -/
def pipelined : Bytes :=
  Text.utf8 "POST /a HTTP/1.1\r\nHost: h\r\n\r\nGET /b HTTP/1.1\r\nHost: h\r\n\r\n"

/-- The first of the two requests is read from the bytes of both, without a length. -/
theorem ofBytes_pipelined :
    ∃ r, Arrival.ofBytes pipelined = .request r 29 ∧ r.contentLength = none := by
  have hp : (Request.parse pipelined).map (fun p => (p.1.contentLength, p.2)) = .ok (none, 29) := by
    decide +kernel
  cases hr : Request.parse pipelined with
  | error e => simp [hr, Except.map] at hp
  | ok p =>
    simp only [hr, Except.map, Except.ok.injEq, Prod.mk.injEq] at hp
    obtain ⟨hc, hs⟩ := hp
    have hsize : Arrival.sizeOf p.1 p.2 = 29 := by
      unfold Arrival.sizeOf
      rw [hc, hs, Option.getD_none]
    refine ⟨p.1, ?_, hc⟩
    rw [Arrival.ofBytes_of_parse (by decide +kernel) hr, hsize, if_neg (by decide +kernel)]

/-- The second request of the pipelined stream is the body of the first as well, when both arrive
at once. -/
theorem pipelined_not_delimited :
    pipelined.length < Request.maxSize ∧ ¬ DelimitedStream pipelined ∧
      ¬ ∀ reads, Splits reads pipelined → ∀ t ∈ takes [] reads, t.request.body = t.removed := by
  have hl : pipelined.length < Request.maxSize := by decide +kernel
  have hn : ¬ DelimitedStream pipelined := by
    intro h
    obtain ⟨r, ha, hc⟩ := ofBytes_pipelined
    have hd : Take.Delimited ⟨pipelined, r, 29⟩ := by
      apply h
      rw [takes_of_request ha]
      exact List.mem_cons_self
    rcases hd with hd | hd
    · simp [hc] at hd
    · have hb : pipelined.drop 29 = [] := by
        simpa [Take.behind, Take.start, hc] using hd
      exact absurd hb (by decide +kernel)
  refine ⟨hl, hn, ?_⟩
  intro h
  have hw := bodies_are_removed_iff_delimited (fun _ w => (rejection .badRequest "", w)) false
    ⟨0, fun _ => 0, 0, []⟩ hl
  exact hn (hw.2.1.1 h)

end Palisade.Conversation
