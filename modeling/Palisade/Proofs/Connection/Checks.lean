import Palisade.Proofs.Connection.Arrival

/-!
# Positions and sizes within their range

A machine computes positions and sizes in words of sixty-four bits. There a difference can fall below zero, a
sum can be too large for a word, and a cut can lie outside of the bytes at hand. Reading a request and
serving a connection are written here once more with each of these steps checked. The main statement says
that no check ever fails, whatever arrives and whatever length is declared: the runs with checks are those
without. How much memory is there is not looked at.
-/
namespace Palisade

open Palisade.Text

/-! ### Steps that can fail -/

namespace Checked

/-- The difference of two words, if it is none below zero. -/
def sub (a b : Nat) : Option Nat := if b ≤ a then some (a - b) else none

/-- The sum of two words, if a word holds it. -/
def add (a b : Nat) : Option Nat := if a + b ≤ largest64 then some (a + b) else none

/-- The bytes from one position up to another, if both are there and in order. -/
def slice (s : Bytes) (first last : Nat) : Option Bytes :=
  if first ≤ last ∧ last ≤ s.length then some ((s.take last).drop first) else none

/-- The first bytes, as many as are asked for, and those behind them, if there are so many. -/
def splitTo (s : Bytes) (count : Nat) : Option (Bytes × Bytes) :=
  if count ≤ s.length then some (s.take count, s.drop count) else none

/-- A difference that is not below zero does not fail. -/
theorem sub_of_le {a b : Nat} (h : b ≤ a) : sub a b = some (a - b) := if_pos h

/-- A sum that fits into sixty-four bits does not fail. -/
theorem add_of_le {a b : Nat} (h : a + b ≤ largest64) : add a b = some (a + b) := if_pos h

/-- A slice within the bytes does not fail. -/
theorem slice_of_le {s : Bytes} {first last : Nat} (h : first ≤ last) (hl : last ≤ s.length) :
    slice s first last = some ((s.take last).drop first) := if_pos ⟨h, hl⟩

/-- A split within the bytes does not fail. -/
theorem splitTo_of_le {s : Bytes} {count : Nat} (h : count ≤ s.length) :
    splitTo s count = some (s.take count, s.drop count) := if_pos h

/-- A sum that is to stay within the bound on requests is the sum, however large it is. -/
theorem filter_add (a b : Nat) :
    (add a b).filter (· ≤ Request.maxSize) =
      if Request.maxSize < a + b then none else some (a + b) := by
  have hmax := Request.maxSize_lt_largest64
  unfold add
  by_cases hword : a + b ≤ largest64
  · by_cases hm : Request.maxSize < a + b
    · simp [hword, hm]
    · simp [hword, hm, Nat.le_of_not_lt hm]
  · have hm : Request.maxSize < a + b := by omega
    simp [hword, hm]

/-! ### The same runs with checks -/

/-- Reads the request at the front of the bytes. A sum that no word holds is too large a request here, and
not a failure. -/
def parse (buffer : Bytes) : Option (Except RequestError (Request × Nat)) :=
  match Head.scan buffer with
  | .error .incomplete => some (.error .incomplete)
  | .error (.offence o) => some (.error (.malformed o))
  | .ok (head, rest) => do
    let start ← sub buffer.length rest.length
    let arrived ← sub buffer.length start
    let length := (Request.ofHead head).contentLength.getD arrived
    match (add start length).filter (· ≤ Request.maxSize) with
    | none => some (.error .bodyTooLarge)
    | some total =>
      let body ← slice buffer start (min buffer.length total)
      some (.ok ({ Request.ofHead head with body }, start))

/-- Looks at bytes. Where no request can be read there is nothing to compute. -/
def look (buffer : Bytes) : Option Arrival :=
  if Request.maxSize < buffer.length then some (Arrival.ofBytes buffer)
  else do
    match ← parse buffer with
    | .error _ => some (Arrival.ofBytes buffer)
    | .ok (r, start) =>
      let size ← add start (r.contentLength.getD 0)
      some (if buffer.length < size then .incomplete else .request r size)

/-- Behind a front there are as many bytes as are asked for, or as there are. -/
theorem slice_append (taken rest : Bytes) (count : Nat) :
    slice (taken ++ rest) taken.length (min (taken ++ rest).length (taken.length + count)) =
      some (rest.take count) := by
  have hrest : (taken ++ rest).drop taken.length = rest := List.drop_left
  rw [slice_of_le (by simp) (Nat.min_le_left _ _), List.drop_take, hrest, Option.some_inj,
    List.take_eq_take_iff, List.length_append]
  omega

/-- Every step of reading a request is possible. -/
theorem parse_eq (buffer : Bytes) : parse buffer = some (Request.parse buffer) := by
  cases hs : Head.scan buffer with
  | error stop => cases stop <;> simp [parse, Request.parse, hs]
  | ok found =>
    obtain ⟨head, rest⟩ := found
    obtain ⟨taken, -, rfl⟩ := Head.scan_takes _ _ _ hs
    have hdiff : (taken ++ rest).length - rest.length = taken.length := by simp
    have hstart : sub (taken ++ rest).length rest.length = some taken.length := by
      rw [sub_of_le (by simp), hdiff]
    have harrived : sub (taken ++ rest).length taken.length = some rest.length := by
      rw [sub_of_le (by simp), List.length_append, Nat.add_sub_cancel_left]
    rw [Request.parse_of_scan hs, parse, hs]
    simp only [hstart, harrived, hdiff, Option.bind_eq_bind, Option.bind_some, filter_add]
    generalize (Request.ofHead head).contentLength.getD rest.length = length
    by_cases hm : Request.maxSize < taken.length + length
    · rw [if_pos hm, if_pos hm]
    · rw [if_neg hm, if_neg hm]
      simp only [slice_append, Option.bind_some]

/-- Where a request that is read ends, if no more has arrived than a request may have. -/
theorem size_le_of_parse {buffer : Bytes} {r : Request} {start : Nat}
    (hl : buffer.length ≤ Request.maxSize) (h : Request.parse buffer = .ok (r, start)) :
    start + r.contentLength.getD 0 ≤ Request.maxSize := by
  obtain ⟨head, -, -, hle, -, hsize⟩ := Request.scan_of_parse h
  cases hc : r.contentLength with
  | none =>
    rw [Option.getD_none]
    omega
  | some n =>
    rw [hc, Option.getD_some] at hsize
    exact hsize

/-- A word holds this sum. -/
theorem add_of_parse {buffer : Bytes} {r : Request} {start : Nat} (hl : buffer.length ≤ Request.maxSize)
    (h : Request.parse buffer = .ok (r, start)) :
    add start (r.contentLength.getD 0) = some (start + r.contentLength.getD 0) := by
  have hsize := size_le_of_parse hl h
  have hmax := Request.maxSize_lt_largest64
  exact add_of_le (by omega)

/-- Every step of looking at bytes is possible. -/
theorem look_eq (buffer : Bytes) : look buffer = some (Arrival.ofBytes buffer) := by
  unfold look
  by_cases hl : Request.maxSize < buffer.length
  · rw [if_pos hl]
  · rw [if_neg hl]
    cases hp : Request.parse buffer with
    | error e => simp [parse_eq, hp]
    | ok found =>
      obtain ⟨r, start⟩ := found
      have hle : buffer.length ≤ Request.maxSize := by omega
      rw [Arrival.ofBytes_of_parse hle hp]
      simp only [parse_eq, hp, add_of_parse hle hp, Option.bind_eq_bind, Option.bind_some]
      rfl

open Conversation in
/-- Serves a connection of which `buffer` has arrived and `reads` will arrive. -/
def converse (handle : Request → World → Reply × World) (tls : Bool) (buffer : Bytes)
    (reads : List Bytes) (world : World) : Option Conversation :=
  match _h : look buffer with
  | none => none
  | some .incomplete =>
    match reads with
    | [] => some ⟨[], .closedByPeer, world.record peerEvent⟩
    | read :: rest =>
      if read.isEmpty then some ⟨[], .closedByPeer, world.record peerEvent⟩
      else converse handle tls (buffer ++ read) rest world
  | some (.rejected status body event) =>
    let reply := rejection status body
    some ⟨[], .rejected reply, (world.record event).recordAll reply.reports⟩
  | some (.request r size) =>
    let (e, left) := exchange handle tls r size world
    match _hs : splitTo buffer size with
    | none => none
    | some (_, behind) =>
      if r.isKeepAlive then (converse handle tls behind reads left).map (after e)
      else some ⟨[e], .closedAfterReply, left.record closeEvent⟩
termination_by (reads.length, buffer.length)
decreasing_by
  · exact Prod.Lex.left _ _ (by simp)
  · rw [look_eq, Option.some_inj] at _h
    have hsize := Arrival.size_pos_of_ofBytes _h
    rw [splitTo_of_le hsize.2] at _hs
    obtain rfl := (Prod.mk.inj (Option.some.inj _hs)).2
    exact Prod.Lex.right _ (by simp; omega)

section

variable {handle : Request → World → Reply × World} {tls : Bool} {buffer : Bytes} {reads : List Bytes}
  {world : World}

open Conversation in
/-- What is removed for a request has arrived. -/
theorem converse_of_request {r : Request} {size : Nat} (h : Arrival.ofBytes buffer = .request r size) :
    converse handle tls buffer reads world =
      let (e, left) := exchange handle tls r size world
      if r.isKeepAlive then (converse handle tls (buffer.drop size) reads left).map (after e)
      else some ⟨[e], .closedAfterReply, left.record closeEvent⟩ := by
  have hsplit := splitTo_of_le (Arrival.size_pos_of_ofBytes h).2
  rw [converse.eq_def]
  split
  · simp_all [look_eq]
  · simp_all [look_eq]
  · simp_all [look_eq]
  · rename_i r' size' h'
    rw [look_eq, h] at h'
    simp only [Option.some.injEq, Arrival.request.injEq] at h'
    obtain ⟨rfl, rfl⟩ := h'
    cases exchange handle tls r size world with
    | mk e left =>
      simp only
      split
      · rename_i hs
        rw [hsplit] at hs
        cases hs
      · rename_i behind hs
        rw [hsplit] at hs
        obtain ⟨-, rfl⟩ := Prod.mk.inj (Option.some.inj hs)
        rfl

end

/-- Every step of serving a connection is possible. -/
theorem converse_eq (handle : Request → World → Reply × World) (tls : Bool) (buffer : Bytes)
    (reads : List Bytes) (world : World) :
    converse handle tls buffer reads world =
      some (Conversation.converse handle tls buffer reads world) := by
  fun_induction Conversation.converse handle tls buffer reads world with
  | case1 buffer world ha =>
    rw [converse.eq_def]
    split <;> simp_all [look_eq]
  | case2 buffer world ha read rest he =>
    rw [converse.eq_def]
    split <;> simp_all [look_eq]
  | case3 buffer world ha read rest he ih =>
    rw [converse.eq_def]
    split <;> simp_all [look_eq]
  | case4 buffer reads world status body event ha reply =>
    rw [converse.eq_def]
    split <;> simp_all [look_eq, reply]
  | case5 buffer reads world r size ha e left hx hk ih =>
    rw [converse_of_request ha, hx]
    simp [hk, ih]
  | case6 buffer reads world r size ha e left hx hk =>
    rw [converse_of_request ha, hx]
    simp [hk]

/-- Positions and sizes stay within their range. In every buffer within the bound on requests, whatever its
head declares, a request that is read begins its body behind the first byte and within the buffer; where it
ends is a sum that a word holds, within the bound; and its body is cut out of the buffer there. No check
fails in reading a request, from any bytes, nor in serving a connection, from any state of it, whatever
arrives and whatever is answered. -/
theorem all_in_range :
    (∀ buffer r start, buffer.length ≤ Request.maxSize → Request.parse buffer = .ok (r, start) →
      0 < start ∧ start ≤ buffer.length ∧
      (∃ size, add start (r.contentLength.getD 0) = some size ∧ size ≤ Request.maxSize) ∧
      ∃ last, slice buffer start last = some r.body) ∧
    (∀ buffer, parse buffer = some (Request.parse buffer)) ∧
    ∀ handle tls buffer reads world, converse handle tls buffer reads world =
      some (Conversation.converse handle tls buffer reads world) := by
  refine ⟨fun buffer r start hl hp => ?_, parse_eq, converse_eq⟩
  obtain ⟨hpos, hle⟩ := Request.start_pos_of_parse hp
  obtain ⟨head, -, -, -, hbody, -⟩ := Request.scan_of_parse hp
  refine ⟨hpos, hle, ⟨_, add_of_parse hl hp, size_le_of_parse hl hp⟩, ?_⟩
  have hslice := slice_append (buffer.take start) (buffer.drop start)
    (r.contentLength.getD (buffer.length - start))
  rw [List.take_append_drop, List.length_take_of_le hle, ← hbody] at hslice
  exact ⟨_, hslice⟩

/-- A request of which five bytes of the body have arrived, and which ends where the largest request
does. -/
def largest : Bytes := utf8 "POST / HTTP/1.1\r\nContent-Length: 8388564\r\n\r\nhello"

/-- The bound on requests is reached, and nothing behind it. -/
theorem largest_in_range :
    ∃ r, Request.parse largest = .ok (r, 44) ∧ 44 ≤ largest.length ∧
      add 44 (r.contentLength.getD 0) = some Request.maxSize ∧
      ∃ last, slice largest 44 last = some r.body := by
  have hp : (Request.parse largest).toOption.map (fun found => (found.1.contentLength, found.2)) =
      some (some 8388564, 44) := by
    decide +kernel
  cases hr : Request.parse largest with
  | error e =>
    rw [hr] at hp
    cases hp
  | ok found =>
    obtain ⟨r, start⟩ := found
    rw [hr] at hp
    obtain ⟨hc, rfl⟩ := Prod.mk.inj (Option.some.inj hp)
    obtain ⟨-, hle, -, hbody⟩ := all_in_range.1 largest r 44 (by decide +kernel) hr
    refine ⟨r, rfl, hle, ?_, hbody⟩
    rw [hc]
    decide

end Checked

end Palisade
