import Palisade.Proofs.Connection.Head
import Palisade.Service.Connection

/-!
# What more bytes change about a request

Two places decide where a request ends: reading takes a body from what has arrived, and the connection
counts how many bytes to remove. They agree when the head says how long the body is. When it does not,
reading takes everything that has arrived behind the head and the connection removes nothing there;
more bytes then change the body and nothing else.
-/
namespace Palisade

namespace Request

/-- A request apart from its body. -/
def bare (r : Request) : Request := { r with body := [] }

/-- The body has no part in the length that is declared. -/
@[simp] theorem contentLength_bare (r : Request) : r.bare.contentLength = r.contentLength := rfl

/-- The body has no part in whether the connection goes on. -/
@[simp] theorem isKeepAlive_bare (r : Request) : r.bare.isKeepAlive = r.isKeepAlive := rfl

/-- Requests that differ in their bodies at most declare the same length. -/
theorem contentLength_eq_of_bare_eq {r r' : Request} (h : r.bare = r'.bare) :
    r.contentLength = r'.contentLength := by
  rw [← contentLength_bare r, h, contentLength_bare]

/-- Requests that differ in their bodies at most agree on whether the connection goes on. -/
theorem isKeepAlive_eq_of_bare_eq {r r' : Request} (h : r.bare = r'.bare) :
    r.isKeepAlive = r'.isKeepAlive := by
  rw [← isKeepAlive_bare r, h, isKeepAlive_bare]

/-- Requests that differ in their bodies at most are the same if their bodies are. -/
theorem eq_of_bare_eq {r r' : Request} (h : r.bare = r'.bare) (hb : r.body = r'.body) : r = r' := by
  cases r
  cases r'
  simp_all [bare]

/-- The request of a scanned head, before it is known how much of the body there is. -/
def ofHead (head : Head) : Request :=
  let (path, query) := splitTarget head.target
  { method := Method.ofName (String.ofList (Text.decodeLossy head.method))
    path, query
    minor := head.minor
    headers := headersOf head.fields
    body := []
    tls := false }

/-- Reading a request whose head is complete. -/
theorem parse_of_scan {buffer rest : Bytes} {head : Head}
    (h : Head.scan buffer = .ok (head, rest)) :
    parse buffer =
      let length := (ofHead head).contentLength.getD rest.length
      let start := buffer.length - rest.length
      if maxSize < start + length then .error .bodyTooLarge
      else .ok ({ ofHead head with body := rest.take length }, start) := by
  unfold parse
  rw [h]
  rfl

/-- A request is read from a complete head, and its body from what follows the head. -/
theorem scan_of_parse {buffer : Bytes} {r : Request} {start : Nat}
    (h : parse buffer = .ok (r, start)) :
    ∃ head, Head.scan buffer = .ok (head, buffer.drop start) ∧ r.bare = ofHead head ∧
      start ≤ buffer.length ∧
      r.body = (buffer.drop start).take (r.contentLength.getD (buffer.length - start)) ∧
      start + r.contentLength.getD (buffer.length - start) ≤ maxSize := by
  cases hs : Head.scan buffer with
  | error stop => cases stop <;> simp [parse, hs] at h
  | ok p =>
    obtain ⟨head, rest⟩ := p
    obtain ⟨taken, -, rfl⟩ := Head.scan_takes _ _ _ hs
    rw [parse_of_scan hs] at h
    simp only at h
    split at h
    · simp at h
    · rename_i hm
      simp only [Except.ok.injEq, Prod.mk.injEq] at h
      obtain ⟨rfl, rfl⟩ := h
      have hl : (taken ++ rest).length - rest.length = taken.length := by simp
      rw [hl] at hm ⊢
      have hc : contentLength { ofHead head with
          body := rest.take ((ofHead head).contentLength.getD rest.length) } =
          (ofHead head).contentLength := rfl
      refine ⟨head, ?_, rfl, by simp, ?_, ?_⟩
      · simp
      · simp [hc]
      · simp only [hc, List.length_append, Nat.add_sub_cancel_left]
        omega

/-- More bytes leave a request that was read as it is, apart from its body. -/
theorem parse_append_of_ok {buffer more : Bytes} {r : Request} {start : Nat}
    (h : parse buffer = .ok (r, start)) (hl : (buffer ++ more).length ≤ maxSize) :
    ∃ r', parse (buffer ++ more) = .ok (r', start) ∧ r'.bare = r.bare := by
  obtain ⟨head, hs, hb, hle, -, hm⟩ := scan_of_parse h
  have hc : r.contentLength = (ofHead head).contentLength := contentLength_eq_of_bare_eq hb
  have hstart : (buffer ++ more).length - (buffer.drop start ++ more).length = start := by
    simp only [List.length_append, List.length_drop]
    omega
  rw [parse_of_scan (Head.settled_scan.of_ok hs more), hstart, ← hc]
  simp only
  have hn : ¬ maxSize < start + r.contentLength.getD (buffer.drop start ++ more).length := by
    cases hd : r.contentLength with
    | none =>
      simp only [Option.getD_none, List.length_append, List.length_drop] at hl ⊢
      omega
    | some n =>
      rw [hd] at hm
      simp only [Option.getD_some] at hm ⊢
      omega
  rw [if_neg hn]
  exact ⟨_, rfl, hb.symm⟩

/-- Bytes that are no request, or declare too long a body, stay so whatever follows. -/
theorem parse_append_of_error {buffer : Bytes} {e : RequestError} (h : parse buffer = .error e)
    (he : e ≠ .incomplete) (hl : buffer.length ≤ maxSize) (more : Bytes) :
    parse (buffer ++ more) = .error e := by
  cases hs : Head.scan buffer with
  | error stop =>
    cases stop with
    | incomplete => simp [parse, hs, Ne.symm he] at h
    | offence o =>
      have hm := Head.settled_scan.of_offence hs more
      simp only [parse, hs] at h
      simp only [parse, hm, h]
  | ok p =>
    obtain ⟨head, rest⟩ := p
    have hm := Head.settled_scan.of_ok hs more
    obtain ⟨taken, -, rfl⟩ := Head.scan_takes _ _ _ hs
    rw [parse_of_scan hs] at h
    rw [parse_of_scan hm]
    simp only [List.length_append, Nat.add_sub_cancel] at h hl ⊢
    split at h
    · rename_i hlarge
      cases hc : (ofHead head).contentLength with
      | none =>
        simp only [hc, Option.getD_none] at hlarge
        omega
      | some n =>
        simp only [hc, Option.getD_some] at hlarge ⊢
        have hlarge' : maxSize <
            taken.length + rest.length + more.length - (rest.length + more.length) + n := by omega
        rw [if_pos hlarge', h]
    · simp at h

end Request

namespace Arrival

/-- Where the body of a request begins that takes `size` bytes. -/
theorem parse_of_ofBytes {buffer : Bytes} {r : Request} {size : Nat}
    (h : ofBytes buffer = .request r size) :
    ∃ start, Request.parse buffer = .ok (r, start) ∧ size = sizeOf r start ∧
      size ≤ buffer.length := by
  unfold ofBytes at h
  split at h
  · simp at h
  · split at h
    · simp at h
    · simp at h
    · simp at h
    · rename_i r' start hp
      split at h
      · simp at h
      · rename_i hlt
        simp only [Arrival.request.injEq] at h
        obtain ⟨rfl, rfl⟩ := h
        exact ⟨start, hp, rfl, by omega⟩

/-- Looking at bytes within the bound from which a request can be read. -/
theorem ofBytes_of_parse {buffer : Bytes} {r : Request} {start : Nat}
    (hl : buffer.length ≤ Request.maxSize) (h : Request.parse buffer = .ok (r, start)) :
    ofBytes buffer =
      if buffer.length < sizeOf r start then .incomplete else .request r (sizeOf r start) := by
  unfold ofBytes
  rw [if_neg (by omega), h]

/-- A request that is there stays when more bytes follow, apart from its body. -/
theorem ofBytes_append_of_request {buffer more : Bytes} {r : Request} {size : Nat}
    (h : ofBytes buffer = .request r size) (hl : (buffer ++ more).length ≤ Request.maxSize) :
    ∃ r', ofBytes (buffer ++ more) = .request r' size ∧ r'.bare = r.bare := by
  obtain ⟨start, hp, rfl, hle⟩ := parse_of_ofBytes h
  obtain ⟨r', hp', hb⟩ := Request.parse_append_of_ok hp hl
  have hs : sizeOf r' start = sizeOf r start := by
    unfold sizeOf
    rw [Request.contentLength_eq_of_bare_eq hb]
  have hn : ¬ (buffer ++ more).length < sizeOf r start := by
    simp only [List.length_append]
    omega
  refine ⟨r', ?_, hb⟩
  rw [ofBytes_of_parse hl hp', hs, if_neg hn]

/-- Bytes that are rejected stay rejected when more follow. -/
theorem ofBytes_append_of_rejected {buffer more : Bytes} {status : Status} {body : String}
    {event : Event} (h : ofBytes buffer = .rejected status body event)
    (hl : (buffer ++ more).length ≤ Request.maxSize) :
    ofBytes (buffer ++ more) = .rejected status body event := by
  have hb : buffer.length ≤ Request.maxSize := by
    simp only [List.length_append] at hl
    omega
  have hn : ¬ Request.maxSize < buffer.length := by omega
  have hn' : ¬ Request.maxSize < (buffer ++ more).length := by omega
  unfold ofBytes at h ⊢
  rw [if_neg hn] at h
  rw [if_neg hn']
  cases hp : Request.parse buffer with
  | ok p =>
    simp only [hp] at h
    split at h <;> simp at h
  | error e =>
    rw [hp] at h
    cases e with
    | incomplete => simp at h
    | bodyTooLarge =>
      rw [Request.parse_append_of_error hp (by simp) hb more]
      exact h
    | malformed o =>
      rw [Request.parse_append_of_error hp (by simp) hb more]
      exact h

end Arrival

end Palisade
