import Palisade.Proofs.Http.CookieLines
import Palisade.Proofs.Text.Decoding
import Palisade.Proofs.Text.Numerals

/-!
# Requests that declare a length

The head of a request can tell the length of the body. The number is taken if sixty-four bits hold it;
otherwise it is as if the head told nothing, and the body is all that has arrived. The main statement says
for which numbers the bound on requests is kept as declared, and when a greater number lets a request
through that a smaller one does not: exactly if it is one that is not taken.
-/
namespace Palisade

open Palisade.Text

namespace Text

/-- A numeral is of one number. -/
theorem Numeral.unique {s : List Char} {m n : Nat} (hm : Numeral s m) (hn : Numeral s n) : m = n := by
  have hread : ∀ k, Numeral s k → k ≤ m + n → readNat? (m + n) (String.ofList s) = some k :=
    fun k hk hle => readNat?_eq_some_iff.2 ⟨by rwa [String.toList_ofList], hle⟩
  have hmn := (hread m hm (by omega)).symm.trans (hread n hn (by omega))
  exact Option.some.inj hmn

/-- Reading a numeral gives its number, unless that is too large. -/
theorem readNat?_of_numeral {largest n : Nat} {s : String} (h : Numeral s.toList n) :
    readNat? largest s = if n ≤ largest then some n else none := by
  split
  · rename_i hle
    exact readNat?_eq_some_iff.2 ⟨h, hle⟩
  · rename_i hgt
    cases hr : readNat? largest s with
    | none => rfl
    | some m =>
      obtain ⟨hm, hle⟩ := readNat?_eq_some_iff.1 hr
      exact absurd (hm.unique h ▸ hle) hgt

end Text

namespace Request

/-- The head is complete and ends at a position, and the first of its lines that tell a length tells this
one. -/
def Declares (buffer : Bytes) (start n : Nat) : Prop :=
  ∃ head text, Head.scan buffer = .ok (head, buffer.drop start) ∧ start ≤ buffer.length ∧
    (Head.valuesOf head.fields "content-length").head? = some (utf8 text) ∧ Numeral text.toList n

/-- The declared length decides: with the head it may be as large as a request, and then the request has
just this length. -/
structure KeepsLength (buffer : Bytes) (start n : Nat) : Prop where
  refused_iff : parse buffer = .error .bodyTooLarge ↔ maxSize < start + n
  request : start + n ≤ maxSize → ∃ r, parse buffer = .ok (r, start) ∧ r.contentLength = some n

/-- The first value of a name is that of its first line, if this is a text. -/
theorem get?_of_head?_valuesOf {fields : List (Bytes × Bytes)} {name text : String}
    (h : (Head.valuesOf fields name).head? = some (utf8 text)) :
    (headersOf fields).get? name = some text := by
  obtain ⟨others, hv⟩ := List.head?_eq_some_iff.1 h
  have htext : ofUtf8? (utf8 text) = some text := ofUtf8?_eq_some_iff.2 rfl
  rw [Headers.get?_eq_head?_getAll, getAll_headersOf, hv, List.filterMap_cons_some htext]
  rfl

variable {buffer : Bytes} {start n : Nat}

/-- What becomes of a request that declares a length. A number that is not taken leaves the body what it
would be without. -/
theorem Declares.parse_eq (h : Declares buffer start n) :
    start ≤ buffer.length ∧ ∃ r, r.contentLength = (if n ≤ largest64 then some n else none) ∧
      r.body = (buffer.drop start).take (r.contentLength.getD (buffer.length - start)) ∧
      parse buffer =
        if maxSize < start + r.contentLength.getD (buffer.length - start) then .error .bodyTooLarge
        else .ok (r, start) := by
  obtain ⟨head, text, hs, hle, hv, hn⟩ := h
  have hlength : (ofHead head).contentLength = if n ≤ largest64 then some n else none := by
    have hget : (ofHead head).headers.get? "content-length" = some text := get?_of_head?_valuesOf hv
    rw [contentLength, contentLengthOf, hget, Option.bind_some, readNat?_of_numeral hn]
  have hrest : (buffer.drop start).length = buffer.length - start := List.length_drop
  have hstart : buffer.length - (buffer.length - start) = start := by omega
  refine ⟨hle, { ofHead head with
    body := (buffer.drop start).take ((ofHead head).contentLength.getD (buffer.length - start)) },
    hlength, rfl, ?_⟩
  rw [parse_of_scan hs]
  simp only [hrest, hstart]
  rfl

/-- A number that is taken is the length of the request, and the bound is that of head and number. -/
theorem Declares.parse_of_le (h : Declares buffer start n) (hn : n ≤ largest64) :
    ∃ r, r.contentLength = some n ∧
      parse buffer = if maxSize < start + n then .error .bodyTooLarge else .ok (r, start) := by
  obtain ⟨-, r, hlength, -, hp⟩ := h.parse_eq
  rw [if_pos hn] at hlength
  rw [hlength, Option.getD_some] at hp
  exact ⟨r, hlength, hp⟩

/-- A number that is not taken leaves all that has arrived as the body, and the bound is that of all that
has arrived. -/
theorem Declares.parse_of_gt (h : Declares buffer start n) (hn : largest64 < n) :
    ∃ r, r.contentLength = none ∧ r.body = buffer.drop start ∧
      parse buffer = if maxSize < buffer.length then .error .bodyTooLarge else .ok (r, start) := by
  obtain ⟨hle, r, hlength, hbody, hp⟩ := h.parse_eq
  rw [if_neg (by omega)] at hlength
  have hsum : start + (buffer.length - start) = buffer.length := by omega
  rw [hlength, Option.getD_none] at hbody hp
  rw [hsum] at hp
  refine ⟨r, hlength, ?_, hp⟩
  rw [hbody]
  exact List.take_of_length_le (by simp)

/-- A request that declares a length is refused for its size, or it is read. -/
theorem Declares.refused_iff (h : Declares buffer start n) :
    parse buffer = .error .bodyTooLarge ↔
      if n ≤ largest64 then maxSize < start + n else maxSize < buffer.length := by
  split
  · rename_i hn
    obtain ⟨r, -, hp⟩ := h.parse_of_le hn
    rw [hp]
    split <;> simp_all
  · rename_i hn
    obtain ⟨r, -, -, hp⟩ := h.parse_of_gt (by omega)
    rw [hp]
    split <;> simp_all

/-- A head that declares a length is read exactly if the body is not too large. -/
theorem Declares.read_iff (h : Declares buffer start n) :
    (∃ r, parse buffer = .ok (r, start)) ↔ parse buffer ≠ .error .bodyTooLarge := by
  obtain ⟨-, r, -, -, hp⟩ := h.parse_eq
  rw [hp]
  split <;> simp

/-- Lengths that are taken decide. -/
theorem Declares.keepsLength (h : Declares buffer start n) (hn : n ≤ largest64) :
    KeepsLength buffer start n := by
  refine ⟨by rw [h.refused_iff, if_pos hn], fun hle => ?_⟩
  obtain ⟨r, hlength, hp⟩ := h.parse_of_le hn
  rw [if_neg (by omega)] at hp
  exact ⟨r, hp, hlength⟩

/-- Where the declared length decides, for every request that declares one: if sixty-four bits hold it, or
if more has arrived than a request may have. Any other length is not looked at: the request is read, it
declares nothing, and its body is all that has arrived behind the head. So where a request is refused, one
whose head and length are no smaller is read exactly if sixty-four bits do not hold its length, and if no
more of it has arrived than a request may have. -/
theorem keepsLength_iff (h : Declares buffer start n) :
    (KeepsLength buffer start n ↔ n ≤ largest64 ∨ maxSize < buffer.length) ∧
    (largest64 < n → buffer.length ≤ maxSize →
      ∃ r, parse buffer = .ok (r, start) ∧ r.contentLength = none ∧ r.body = buffer.drop start) ∧
    (parse buffer = .error .bodyTooLarge → ∀ buffer' start' n', Declares buffer' start' n' →
      start ≤ start' → n ≤ n' →
      ((∃ r, parse buffer' = .ok (r, start')) ↔ largest64 < n' ∧ buffer'.length ≤ maxSize)) := by
  have hmax := maxSize_lt_largest64
  refine ⟨⟨fun hk => ?_, ?_⟩, fun hn hle => ?_, fun hp buffer' start' n' h' hs hn => ?_⟩
  · by_contra hc
    rw [not_or] at hc
    have hr := hk.refused_iff.2 (by omega)
    rw [h.refused_iff, if_neg hc.1] at hr
    exact hc.2 hr
  · rintro (hn | hl)
    · exact h.keepsLength hn
    · by_cases hn : n ≤ largest64
      · exact h.keepsLength hn
      · refine ⟨?_, fun hle => absurd hle (by omega)⟩
        rw [h.refused_iff, if_neg hn]
        exact ⟨fun _ => by omega, fun _ => hl⟩
  · obtain ⟨r, hlength, hbody, hp⟩ := h.parse_of_gt hn
    rw [if_neg (by omega)] at hp
    exact ⟨r, hp, hlength, hbody⟩
  · rw [h.refused_iff] at hp
    rw [h'.read_iff, ne_eq, h'.refused_iff]
    split at hp <;> split <;> omega

namespace Posted

/-- A request with three bytes of body that declares a length. -/
def bytes (length : String) : Bytes :=
  utf8 ("POST / HTTP/1.1\r\nHost: a\r\nContent-Length: " ++ length ++ "\r\n\r\nxyz")

/-- The greatest number that sixty-four bits hold. -/
def longest : String := "18446744073709551615"

/-- The next number. -/
def tooLong : String := "18446744073709551616"

/-- What the scan of a head and a numeral say together: the bytes declare this length. -/
theorem declares_of_scan {length : String} {n : Nat} (hn : Numeral length.toList n)
    (hs : (Head.scan (bytes length)).toOption.map
        (fun found => (Head.valuesOf found.1.fields "content-length", found.2)) =
      some ([utf8 length], (bytes length).drop 66)) (hl : 66 ≤ (bytes length).length) :
    Declares (bytes length) 66 n := by
  cases hscan : Head.scan (bytes length) with
  | error stop =>
    rw [hscan] at hs
    cases hs
  | ok found =>
    rw [hscan] at hs
    obtain ⟨hv, hrest⟩ := Prod.mk.inj (Option.some.inj hs)
    refine ⟨found.1, length, ?_, hl, ?_, hn⟩
    · rw [hscan, ← hrest]
    · rw [hv]
      rfl

/-- The longest length that sixty-four bits count is declared as it is written. -/
theorem declares_longest : Declares (bytes longest) 66 largest64 :=
  declares_of_scan ⟨longest.toList, .inl rfl, by decide, List.all_eq_true.1 (by decide), by decide⟩
    (by decide +kernel) (by decide +kernel)

/-- So is the next one. -/
theorem declares_tooLong : Declares (bytes tooLong) 66 (largest64 + 1) :=
  declares_of_scan ⟨tooLong.toList, .inl rfl, by decide, List.all_eq_true.1 (by decide), by decide⟩
    (by decide +kernel) (by decide +kernel)

/-- The greatest number is refused, and the next one is let through as if there were none. -/
theorem tooLong_is_not_looked_at :
    Declares (bytes longest) 66 largest64 ∧ Declares (bytes tooLong) 66 (largest64 + 1) ∧
    parse (bytes longest) = .error .bodyTooLarge ∧ ¬ KeepsLength (bytes tooLong) 66 (largest64 + 1) ∧
    ∃ r, parse (bytes tooLong) = .ok (r, 66) ∧ r.contentLength = none ∧ r.body = utf8 "xyz" := by
  have hshort : (bytes tooLong).length ≤ maxSize := by decide +kernel
  have hrefused : parse (bytes longest) = .error .bodyTooLarge := by
    rw [declares_longest.refused_iff, if_pos (by decide)]
    decide
  obtain ⟨hkeeps, hread, -⟩ := keepsLength_iff declares_tooLong
  obtain ⟨r, hp, hlength, hbody⟩ := hread (Nat.lt_succ_self _) hshort
  refine ⟨declares_longest, declares_tooLong, hrefused, fun hk => ?_, r, hp, hlength, ?_⟩
  · rcases hkeeps.1 hk with hn | hl
    · exact absurd hn (by decide)
    · omega
  · rw [hbody]
    decide +kernel

end Posted

end Request

end Palisade
