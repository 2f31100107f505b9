import Mathlib.Data.List.Forall2
import Palisade.Proofs.Connection.Arrival

/-!
# Requests taken from a connection

The requests that a connection hands to its handler are listed with what had arrived when each of them
was taken. Whatever the handler answers, the list is the same. The bytes removed for the requests
follow each other in the stream. A request whose length is declared has exactly the bytes of its body
that are removed; one whose length is not declared has everything that had arrived behind its head, of
which nothing is removed. The main statement says for which streams the bodies are the removed bytes
however the stream is cut into reads: those in which only the last bytes follow a head that declares
no length, and those last bytes are none. Reads that fail are not covered.
-/
namespace Palisade

/-- A request as it is taken from what has arrived. -/
structure Take where
  /-- What had arrived and was not used, with the request at its front. -/
  buffer : Bytes
  /-- The request. -/
  request : Request
  /-- How many bytes are removed for it. -/
  size : Nat

namespace Take

/-- The request is the one at the front of the bytes. -/
def Sound (t : Take) : Prop := Arrival.ofBytes t.buffer = .request t.request t.size

/-- Where the body begins. -/
def start (t : Take) : Nat := t.size - t.request.contentLength.getD 0

/-- The bytes of the head. -/
def head (t : Take) : Bytes := t.buffer.take t.start

/-- The bytes that are removed behind the head. -/
def removed (t : Take) : Bytes := (t.buffer.take t.size).drop t.start

/-- Everything that had arrived behind the head. -/
def behind (t : Take) : Bytes := t.buffer.drop t.start

/-- The length of the body is told by the head, or there is nothing behind the head that could be
taken for a body. -/
def Delimited (t : Take) : Prop := t.request.contentLength.isSome = true ∨ t.behind = []

/-- What is taken is a head and the body that it declares, and all of it has arrived. -/
theorem Sound.size_eq {t : Take} (h : t.Sound) :
    t.size = t.start + t.request.contentLength.getD 0 ∧ t.size ≤ t.buffer.length := by
  obtain ⟨start, -, hs, hle⟩ := Arrival.parse_of_ofBytes h
  unfold Arrival.sizeOf at hs
  unfold Take.start
  omega

/-- The request is read from the bytes, up to its body. -/
theorem Sound.parse_eq {t : Take} (h : t.Sound) :
    Request.parse t.buffer = .ok (t.request, t.start) := by
  obtain ⟨start, hp, hs, -⟩ := Arrival.parse_of_ofBytes h
  have he : start = t.start := by
    unfold Arrival.sizeOf at hs
    unfold Take.start
    omega
  rwa [← he]

/-- What is removed behind the head is the front of what stands there. -/
theorem removed_eq (t : Take) : t.removed = t.behind.take (t.size - t.start) := by
  unfold removed behind
  rw [List.drop_take]

/-- Head and body together are the bytes that are taken. -/
theorem Sound.head_append_removed {t : Take} (h : t.Sound) :
    t.head ++ t.removed = t.buffer.take t.size := by
  obtain ⟨hs, -⟩ := h.size_eq
  rw [removed_eq]
  unfold head behind
  rw [← List.take_add]
  congr 1
  omega

/-- What a body holds: as much of what had arrived as is declared, and otherwise all of it. -/
theorem Sound.body_eq {t : Take} (h : t.Sound) :
    t.request.body = t.behind.take (t.request.contentLength.getD t.behind.length) := by
  obtain ⟨-, -, -, -, hb, -⟩ := Request.scan_of_parse h.parse_eq
  unfold behind
  rwa [List.length_drop]

/-- A body is what is removed behind the head exactly if the request is delimited. -/
theorem Sound.body_eq_removed_iff {t : Take} (h : t.Sound) :
    t.request.body = t.removed ↔ t.Delimited := by
  obtain ⟨hs, -⟩ := h.size_eq
  rw [h.body_eq, removed_eq]
  unfold Delimited
  cases hc : t.request.contentLength with
  | some n =>
    have hn : t.size - t.start = n := by
      rw [hc] at hs
      simp only [Option.getD_some] at hs
      omega
    simp [hn]
  | none =>
    have hn : t.size - t.start = 0 := by
      rw [hc] at hs
      simp only [Option.getD_none] at hs
      omega
    simp [hn]

end Take

namespace Conversation

/-- The requests that are taken when `buffer` has arrived and `reads` will arrive. -/
def takes (buffer : Bytes) (reads : List Bytes) : List Take :=
  match _h : Arrival.ofBytes buffer with
  | .incomplete =>
    match reads with
    | [] => []
    | read :: rest => if read.isEmpty then [] else takes (buffer ++ read) rest
  | .rejected _ _ _ => []
  | .request r size =>
    ⟨buffer, r, size⟩ :: if r.isKeepAlive then takes (buffer.drop size) reads else []
termination_by (reads.length, buffer.length)
decreasing_by
  · exact Prod.Lex.left _ _ (by simp)
  · have := Arrival.size_pos_of_ofBytes (by assumption : Arrival.ofBytes buffer = _)
    exact Prod.Lex.right _ (by simp; omega)

/-- Nothing is taken from what is incomplete if nothing more arrives. -/
theorem takes_of_incomplete_nil {buffer : Bytes} (h : Arrival.ofBytes buffer = .incomplete) :
    takes buffer [] = [] := by
  rw [takes.eq_def]
  split <;> simp_all

/-- What is incomplete is taken up with the bytes that arrive next. -/
theorem takes_of_incomplete_cons {buffer read : Bytes} {rest : List Bytes}
    (h : Arrival.ofBytes buffer = .incomplete) (hne : read ≠ []) :
    takes buffer (read :: rest) = takes (buffer ++ read) rest := by
  rw [takes.eq_def]
  split <;> simp_all

/-- Nothing is taken from what is incomplete if the other side closes the connection. -/
theorem takes_of_closed {buffer : Bytes} {rest : List Bytes}
    (h : Arrival.ofBytes buffer = .incomplete) : takes buffer ([] :: rest) = [] := by
  rw [takes.eq_def]
  split <;> simp_all

/-- Nothing is taken from what is rejected. -/
theorem takes_of_rejected {buffer : Bytes} {reads : List Bytes} {status : Status} {body : String}
    {event : Event} (h : Arrival.ofBytes buffer = .rejected status body event) :
    takes buffer reads = [] := by
  rw [takes.eq_def]
  split <;> simp_all

/-- A request that is there is taken, and the others behind it if it keeps the connection. -/
theorem takes_of_request {buffer : Bytes} {reads : List Bytes} {r : Request} {size : Nat}
    (h : Arrival.ofBytes buffer = .request r size) :
    takes buffer reads =
      ⟨buffer, r, size⟩ :: if r.isKeepAlive then takes (buffer.drop size) reads else [] := by
  rw [takes.eq_def]
  split
  · simp_all
  · simp_all
  · rename_i r' size' h'
    rw [h] at h'
    simp only [Arrival.request.injEq] at h'
    obtain ⟨rfl, rfl⟩ := h'
    rfl

/-- Every request that is taken is the one at the front of its bytes. -/
theorem sound_of_mem_takes {buffer : Bytes} {reads : List Bytes} {t : Take}
    (h : t ∈ takes buffer reads) : t.Sound := by
  fun_induction takes buffer reads with
  | case1 => simp at h
  | case2 => simp at h
  | case3 _ _ _ _ _ ih => exact ih h
  | case4 => simp at h
  | case5 buffer reads r size ha ih =>
    rcases List.mem_cons.1 h with rfl | h
    · exact ha
    · split at h
      · exact ih h
      · simp at h

/-- An exchange is about the request that was read, marked as encrypted or not. -/
theorem exchange_eq {handle : Request → World → Reply × World} {tls : Bool} {r : Request} {size : Nat}
    {world left : World} {e : Exchange} (h : exchange handle tls r size world = (e, left)) :
    e.request = r.withTls tls ∧ e.size = size := by
  simp only [exchange, Prod.mk.injEq] at h
  obtain ⟨rfl, -⟩ := h
  exact ⟨rfl, rfl⟩

/-- A handler sees the requests that are taken, in order, whatever it answers. -/
theorem exchanges_converse (handle : Request → World → Reply × World) (tls : Bool) (buffer : Bytes)
    (reads : List Bytes) (world : World) :
    (converse handle tls buffer reads world).exchanges.map (fun e => (e.request, e.size)) =
      (takes buffer reads).map fun t => (t.request.withTls tls, t.size) := by
  fun_induction converse handle tls buffer reads world with
  | case1 buffer world ha => simp [takes_of_incomplete_nil ha]
  | case2 buffer world ha read rest he =>
    obtain rfl := List.isEmpty_iff.1 he
    simp [takes_of_closed ha]
  | case3 buffer world ha read rest he ih =>
    have hne : read ≠ [] := by
      rintro rfl
      exact he rfl
    rw [takes_of_incomplete_cons ha hne, ih]
  | case4 buffer reads world status body event ha => simp [takes_of_rejected ha]
  | case5 buffer reads world r size ha e left hx hk ih =>
    obtain ⟨hr, hs⟩ := exchange_eq hx
    rw [takes_of_request ha, if_pos hk]
    simp only [after, List.map_cons, ih, hr, hs]
  | case6 buffer reads world r size ha e left hx hk =>
    obtain ⟨hr, hs⟩ := exchange_eq hx
    rw [takes_of_request ha, if_neg hk]
    simp only [List.map_cons, List.map_nil, hr, hs]

/-- What is removed for the requests is the front of what arrives, without a gap. -/
theorem flatMap_takes (buffer : Bytes) (reads : List Bytes) :
    ∃ left, buffer ++ reads.flatten =
      (takes buffer reads).flatMap (fun t => t.head ++ t.removed) ++ left := by
  fun_induction takes buffer reads with
  | case1 buffer ha => exact ⟨buffer, by simp⟩
  | case2 buffer ha read rest he => exact ⟨buffer ++ (read :: rest).flatten, rfl⟩
  | case3 buffer ha read rest he ih =>
    obtain ⟨left, hl⟩ := ih
    refine ⟨left, ?_⟩
    rw [List.flatten_cons, ← List.append_assoc, hl]
  | case4 buffer reads => exact ⟨buffer ++ reads.flatten, rfl⟩
  | case5 buffer reads r size ha ih =>
    have hsound : Take.Sound ⟨buffer, r, size⟩ := ha
    have hsplit : buffer ++ reads.flatten =
        buffer.take size ++ (buffer.drop size ++ reads.flatten) := by
      rw [← List.append_assoc, List.take_append_drop]
    rw [List.flatMap_cons, hsound.head_append_removed, hsplit]
    split
    · rename_i hk
      obtain ⟨left, hl⟩ := ih
      exact ⟨left, by rw [hl, List.append_assoc]⟩
    · exact ⟨buffer.drop size ++ reads.flatten, by simp⟩

end Conversation

/-! ### The same stream in other pieces -/

namespace Take

/-- The same request, taken when less may have arrived. -/
structure Earlier (t later : Take) : Prop where
  bare_eq : t.request.bare = later.request.bare
  size_eq : t.size = later.size
  buffer_prefix : t.buffer <+: later.buffer

/-- The length that is declared does not depend on how much has arrived. -/
theorem Earlier.contentLength_eq {t later : Take} (h : t.Earlier later) :
    t.request.contentLength = later.request.contentLength :=
  Request.contentLength_eq_of_bare_eq h.bare_eq

/-- Where the body begins does not depend on how much has arrived. -/
theorem Earlier.start_eq {t later : Take} (h : t.Earlier later) : t.start = later.start := by
  unfold start
  rw [h.size_eq, h.contentLength_eq]

/-- What had arrived behind the head earlier is the front of what has arrived later. -/
theorem Earlier.behind_prefix {t later : Take} (h : t.Earlier later) : t.behind <+: later.behind := by
  obtain ⟨more, hm⟩ := h.buffer_prefix
  unfold behind
  rw [← h.start_eq, ← hm, List.drop_append]
  exact List.prefix_append _ _

/-- What has no bytes behind it in the end had none before. -/
theorem Earlier.delimited {t later : Take} (h : t.Earlier later) (hd : later.Delimited) :
    t.Delimited := by
  rcases hd with hc | hb
  · left
    rwa [h.contentLength_eq]
  · right
    have hp := h.behind_prefix
    rw [hb] at hp
    exact List.prefix_nil.1 hp

/-- What is removed for a request is there when the request is taken. -/
theorem Earlier.removed_eq {t later : Take} (h : t.Earlier later) (ht : t.Sound) :
    t.removed = later.removed := by
  obtain ⟨more, hm⟩ := h.buffer_prefix
  obtain ⟨-, hle⟩ := ht.size_eq
  unfold removed
  rw [← h.start_eq, ← h.size_eq, ← hm, List.take_append_of_le_length hle]

/-- A delimited request is seen whole whenever it is taken. -/
theorem Earlier.request_eq {t later : Take} (h : t.Earlier later) (ht : t.Sound) (hl : later.Sound)
    (hd : later.Delimited) : t.request = later.request := by
  apply Request.eq_of_bare_eq h.bare_eq
  rw [ht.body_eq_removed_iff.2 (h.delimited hd), hl.body_eq_removed_iff.2 hd, h.removed_eq ht]

end Take

namespace Conversation

/-- The requests taken from a stream in pieces are those taken from all of it at once, apart from
their bodies. -/
theorem takes_earlier {buffer : Bytes} {reads : List Bytes} (hne : ∀ read ∈ reads, read ≠ [])
    (hl : (buffer ++ reads.flatten).length ≤ Request.maxSize) :
    List.Forall₂ Take.Earlier (takes buffer reads) (takes (buffer ++ reads.flatten) []) := by
  fun_induction takes buffer reads with
  | case1 buffer ha =>
    rw [List.flatten_nil, List.append_nil, takes_of_incomplete_nil ha]
    exact .nil
  | case2 buffer ha read rest he =>
    exact absurd (List.isEmpty_iff.1 he) (hne read List.mem_cons_self)
  | case3 buffer ha read rest he ih =>
    rw [List.flatten_cons, ← List.append_assoc] at hl ⊢
    exact ih (fun read' hm => hne read' (List.mem_cons_of_mem _ hm)) hl
  | case4 buffer reads status body event ha =>
    rw [takes_of_rejected (Arrival.ofBytes_append_of_rejected ha hl)]
    exact .nil
  | case5 buffer reads r size ha ih =>
    obtain ⟨r', ha', hb⟩ := Arrival.ofBytes_append_of_request ha hl
    have hsize := (Arrival.size_pos_of_ofBytes ha).2
    have hdrop : (buffer ++ reads.flatten).drop size = buffer.drop size ++ reads.flatten :=
      List.drop_append_of_le_length hsize
    have hl' : (buffer.drop size ++ reads.flatten).length ≤ Request.maxSize := by
      simp only [List.length_append, List.length_drop] at hl ⊢
      omega
    rw [takes_of_request ha', ← Request.isKeepAlive_eq_of_bare_eq hb.symm, hdrop]
    refine .cons ⟨hb.symm, rfl, List.prefix_append _ _⟩ ?_
    split
    · exact ih hne hl'
    · exact .nil

end Conversation

end Palisade
