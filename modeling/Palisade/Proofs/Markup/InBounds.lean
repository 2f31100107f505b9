import Mathlib.Data.List.TakeWhile
import Palisade.Proofs.Markup.Boundaries

/-!
# Nothing is out of bounds

While markup is written, what has been written and what is still to be copied make up the result up to
the place where the loop over brackets stands. Each round keeps that, whatever its bracket begins, so that
the offsets of a tag are in order wherever something is written into it. The main statement is that both
loops go forward, and that writing into the bytes of a text gives the bytes of the text with its insertions,
or its error, and never a failed check.
-/
namespace Palisade

open Palisade.Text Palisade.Markup

namespace MarkupBytes

variable {m : MarkupBytes} {offset start : Nat} {s rest : List Char}

/-! ### Writing -/

/-- Up to an offset a result is written, but for what is still to be copied; behind it a text is still to be
read. -/
def Stands (m : MarkupBytes) (p : Progress) (offset : Nat) (result rest : List Char) : Prop :=
  ∃ written pending, result = written ++ pending ∧ p.out = encode written ∧
    m.Reads p.copied (pending ++ rest) ∧ offset = p.copied + byteLength pending

namespace Stands

variable {p : Progress} {result mid : List Char}

/-- Where the loop stands, the rest is read. -/
theorem reads (h : m.Stands p offset result rest) : m.Reads offset rest := by
  obtain ⟨written, pending, -, -, hreads, rfl⟩ := h
  exact hreads.advance

/-- What was copied stands before the place. -/
theorem le (h : m.Stands p offset result rest) : p.copied ≤ offset := by
  obtain ⟨written, pending, -, -, -, rfl⟩ := h
  exact Nat.le_add_right _ _

/-- What is passed is to be copied. -/
theorem advance (h : m.Stands p offset result (mid ++ rest)) :
    m.Stands p (offset + byteLength mid) (result ++ mid) rest := by
  obtain ⟨written, pending, rfl, hout, hreads, rfl⟩ := h
  refine ⟨written, pending ++ mid, List.append_assoc _ _ _, hout, ?_, ?_⟩
  · rwa [List.append_assoc]
  · rw [byteLength_append, Nat.add_assoc]

end Stands

variable {w : Insertions} {p : Progress} {result after : List Char} {t : StartTag}

/-- The offsets of a tag are in order, so that a text can be written wherever the tag has been copied up to
its name at most. -/
theorem write_eq (ht : m.Reads start (t.source ++ after)) (hc : p.copied ≤ start + byteLength t.opening)
    (h : m.Stands p offset result rest) (text : List Char) :
    ∃ next, m.write (Tag.ofStartTag start t) p offset text = .ok next ∧
      m.Stands next offset (result ++ text) rest := by
  have hname : byteLength t.opening ≤ byteLength t.source := by
    rw [StartTag.source, byteLength_append]
    exact Nat.le_add_right _ _
  have hbehind := ht.advance.add_byteLength
  have hplace := h.reads
  obtain ⟨written, pending, rfl, hout, hreads, rfl⟩ := h
  refine ⟨⟨p.out ++ encode pending ++ encode text, p.copied + byteLength pending, p.position⟩, ?_, ?_⟩
  · rw [write, if_pos ⟨hc, Nat.add_le_add_left hname start, Nat.le.intro hbehind⟩, hreads.slice_html]
    rfl
  · refine ⟨written ++ pending ++ text, [], (List.append_nil _).symm, ?_, hplace, rfl⟩
    rw [hout, encode_append, encode_append]

/-- Writing a nonce succeeds, and leaves the loop behind what was written. -/
theorem writeNonce_eq (ht : m.Reads start (t.source ++ after))
    (h : m.Stands p (start + byteLength t.opening) result (t.inside ++ after)) :
    ∃ next, m.writeNonce w (Tag.ofStartTag start t) p = .ok next ∧
      m.Stands next (start + byteLength t.opening)
        (result ++ if w.nonces && needsNonce t then nonceText else []) (t.inside ++ after) := by
  have hneeds : (utf8 t.name == utf8 "script" && !(t.attributes.map utf8).contains (utf8 "nonce")) =
      needsNonce t := by
    rw [needsNonce, utf8_beq, Bool.eq_iff_iff]
    simp only [Bool.and_eq_true, Bool.not_eq_true', ← Bool.not_eq_true, List.contains_iff_mem,
      List.mem_map_of_injective utf8_injective]
  rw [writeNonce, Tag.ofStartTag]
  simp only [hneeds]
  by_cases hn : (w.nonces && needsNonce t) = true
  · rw [if_pos hn, if_pos hn]
    exact write_eq ht h.le h nonceText
  · rw [if_neg hn, if_neg hn, List.append_nil]
    exact ⟨p, rfl, h⟩

/-- Writing a token succeeds, and leaves the loop behind what was written. -/
theorem writeToken_eq (ht : m.Reads start (t.source ++ after)) (hc : p.copied ≤ start + byteLength t.opening)
    (h : m.Stands p (start + byteLength t.source) result after) :
    ∃ next, m.writeToken w (Tag.ofStartTag start t) p = .ok next ∧
      m.Stands next (start + byteLength t.source)
        (result ++ if w.tokens && needsToken t then tokenText else []) after := by
  have hneeds : (utf8 t.name == utf8 "form") = needsToken t := utf8_beq _ _
  rw [writeToken, Tag.ofStartTag]
  simp only [hneeds]
  by_cases hn : (w.tokens && needsToken t) = true
  · rw [if_pos hn, if_pos hn]
    exact write_eq ht hc h tokenText
  · rw [if_neg hn, if_neg hn, List.append_nil]
    exact ⟨p, rfl, h⟩

/-- A tag that can be scanned gets what is inserted into it, and then its raw text is passed. -/
theorem element_of_scan {r : List Char} (h : m.Stands p start result ('<' :: r))
    (hs : StartTag.scan start ('<' :: r) = .ok (t, after)) :
    ∃ filled, m.Stands filled (start + byteLength t.source) (result ++ fillTag w t) after ∧
      m.element w start p =
        Halt.relay (fun found => { filled with position := start + byteLength (t.source ++ found.1) })
          (rawText start t after) := by
  have htag := tag_eq h.reads
  rw [hs] at htag
  rw [StartTag.scan_eq hs] at h
  have ht := h.reads
  rw [StartTag.source, List.append_assoc] at h
  obtain ⟨named, hnonce, hnamed⟩ := writeNonce_eq (w := w) ht h.advance
  have hinside := hnamed.advance
  rw [Nat.add_assoc, ← byteLength_append, ← StartTag.source] at hinside
  obtain ⟨filled, htoken, hfilled⟩ := writeToken_eq (w := w) ht hnamed.le hinside
  refine ⟨filled, ?_, ?_⟩
  · rw [fillTag]
    simpa only [List.append_assoc] using hfilled
  · rw [element, htag, Halt.relay, Halt.ok_bind, hnonce, Halt.ok_bind, htoken, Halt.ok_bind,
      passRawText_eq ht]
    cases rawText start t after <;> rfl

/-- A mark behind a bracket is told by its bytes. -/
theorem isPrefixOf_bracket {mark : List Char} (hm : IsAscii mark) (r : List Char) :
    (encode ('<' :: mark)).isPrefixOf (encode ('<' :: r)) = mark.isPrefixOf r := by
  have hall : IsAscii ('<' :: mark) := List.forall_mem_cons.2 ⟨by decide, hm⟩
  rw [isPrefixOf_encode hall, List.isPrefixOf_cons_cons_self]

/-- What a bracket begins is told by the characters behind it. -/
theorem construct_of_reads {r : List Char} (h : m.Reads start ('<' :: r)) :
    m.construct w start p =
      if "!--".toList.isPrefixOf r then do
        let position ← m.comment start
        return { p with position }
      else match r with
        | [] => .ok { p with position := start + 1 }
        | c :: _ =>
          if c = '/' ∨ c = '!' ∨ c = '?' then do
            let position ← m.declaration start
            return { p with position }
          else if c.isAlpha then m.element w start p
          else .ok { p with position := start + 1 } := by
  have hcomment : (utf8 "<!--").isPrefixOf (encode ('<' :: r)) = "!--".toList.isPrefixOf r :=
    isPrefixOf_bracket (by decide) r
  have hmark {c : Char} (hc : c.toNat < 0x80) :
      (encode ['<', c]).isPrefixOf (encode ('<' :: r)) = [c].isPrefixOf r :=
    isPrefixOf_bracket (by simpa [IsAscii] using hc) r
  have hslash : (utf8 "</").isPrefixOf (encode ('<' :: r)) = ['/'].isPrefixOf r := hmark (by decide)
  have hbang : (utf8 "<!").isPrefixOf (encode ('<' :: r)) = ['!'].isPrefixOf r := hmark (by decide)
  have hquestion : (utf8 "<?").isPrefixOf (encode ('<' :: r)) = ['?'].isPrefixOf r := hmark (by decide)
  rw [construct, h.sliceFrom_html, Halt.ok_bind, hcomment, hslash, hbang, hquestion,
    (h.behind (by decide)).sliceFrom_html, Halt.ok_bind]
  cases r with
  | nil => rfl
  | cons c rest =>
    obtain ⟨d, hd, hclass⟩ := head?_encode_cons c rest
    have halpha : (byteAt? (encode (c :: rest)) 0).any Char.isAlpha = c.isAlpha := by
      rw [byteAt?, ← List.head?_eq_getElem?, hd]
      exact hclass _ uniform_isAlpha
    simp only [halpha, List.isPrefixOf_cons_cons, List.isPrefixOf_nil_left, Bool.and_true, Bool.or_eq_true,
      beq_iff_eq, eq_comm (b := c), or_assoc]
    rfl

/-- Characters that get nothing inserted are passed as they are. -/
theorem Stands.verbatim {mid : List Char} (h : m.Stands p offset result s) (hs : s = mid ++ after) :
    m.Stands { p with position := offset + byteLength mid } (offset + byteLength mid)
      (result ++ [Piece.verbatim mid].flatMap (Piece.filled w)) after := by
  rw [List.flatMap_singleton]
  exact (hs ▸ h).advance

/-- What the loop over brackets has passed ends where the scan of the characters goes on, with all that is
inserted there. -/
theorem construct_eq {r : List Char} (h : m.Stands p start result ('<' :: r)) :
    match bracket start r with
    | .error e => m.construct w start p = .error (.fault e)
    | .ok (ps, after) => ∃ next, m.construct w start p = .ok next ∧
        m.Stands next next.position (result ++ ps.flatMap (Piece.filled w)) after := by
  have alone : ∃ next, Except.ok { p with position := start + 1 } = Except.ok (ε := Halt) next ∧
      m.Stands next next.position (result ++ [Piece.verbatim ['<']].flatMap (Piece.filled w)) r :=
    ⟨_, rfl, h.verbatim (rfl : '<' :: r = ['<'] ++ r)⟩
  rw [construct_of_reads h.reads, bracket.eq_def]
  by_cases hcomment : "!--".toList.isPrefixOf r = true
  · rw [if_pos hcomment, if_pos hcomment]
    obtain ⟨inner, rfl⟩ := List.isPrefixOf_iff_prefix.1 hcomment
    have hdrop : ("!--".toList ++ inner).drop 3 = inner := List.drop_left' rfl
    have htake : ("!--".toList ++ inner).take 3 = "!--".toList := List.take_left' rfl
    rw [comment_eq (r := inner) h.reads, hdrop, htake]
    cases hc : cutPattern "-->".toList inner with
    | none => rfl
    | some found =>
      refine ⟨_, rfl, h.verbatim ?_⟩
      rw [cutPattern_eq_some hc]
      simp
  rw [if_neg hcomment, if_neg hcomment]
  cases r with
  | nil => exact alone
  | cons c rest =>
    simp only
    by_cases hmark : c = '/' ∨ c = '!' ∨ c = '?'
    · rw [if_pos hmark, if_pos hmark, declaration_eq h.reads]
      cases hc : cutAt '>' (c :: rest) with
      | none => rfl
      | some found =>
        refine ⟨_, rfl, h.verbatim ?_⟩
        rw [(cutAt_eq_some hc).1]
        simp
    rw [if_neg hmark, if_neg hmark]
    by_cases halpha : c.isAlpha = true
    · rw [if_pos halpha, if_pos halpha]
      cases hs : StartTag.scan start ('<' :: c :: rest) with
      | error e =>
        simp only
        rw [element, tag_eq h.reads, hs]
        rfl
      | ok found =>
        obtain ⟨t, after⟩ := found
        obtain ⟨filled, hfilled, helement⟩ := element_of_scan (w := w) h hs
        simp only
        rw [helement]
        cases hraw : rawText start t after with
        | error e => rfl
        | ok found =>
          rw [rawText_eq hraw] at hfilled
          have hpassed := hfilled.advance
          rw [Nat.add_assoc, ← byteLength_append, List.append_assoc] at hpassed
          refine ⟨_, rfl, ?_⟩
          change m.Stands filled (start + byteLength (t.source ++ found.1))
            (result ++ [Piece.tag t, Piece.verbatim found.1].flatMap (Piece.filled w)) found.2
          simpa only [List.flatMap_cons, List.flatMap_nil, Piece.filled, List.append_nil] using hpassed
    · rw [if_neg halpha, if_neg halpha]
      exact alone

/-! ### The loop over brackets -/

/-- The next bracket of the bytes is that of the characters. -/
theorem find?_bracket (s : List Char) :
    find? (utf8 "<") (encode s) = (cutAt '<' s).map fun found => byteLength found.1 := by
  have hbyte : utf8 "<" = [byteOf '<'] := by decide
  rw [hbyte, find?_byteOf (by decide)]

/-- Where no bracket is left there is no step. -/
theorem step_of_nil (h : m.Reads p.position s) (hs : s.dropWhile (· != '<') = []) :
    m.step w p = .ok none := by
  have hnone : cutAt '<' s = none := by
    rw [cutAt_eq_none_iff]
    intro hm
    have hall := List.dropWhile_eq_nil_iff.1 hs '<' hm
    simp at hall
  rw [step, h.sliceFrom_html, Halt.ok_bind, find?_bracket, hnone]
  rfl

/-- A round passes the text before a bracket and looks at what the bracket begins. -/
theorem step_of_bracket {c : Char} {r : List Char} (h : m.Stands p p.position result s)
    (hs : s.dropWhile (· != '<') = c :: r) :
    let text := s.takeWhile (· != '<')
    m.step w p = (m.construct w (p.position + byteLength text) p).map some ∧
      m.Stands p (p.position + byteLength text) (result ++ text) ('<' :: r) := by
  intro text
  have hc : c = '<' := by
    have hhead := List.head?_dropWhile_not (· != '<') s
    rw [hs] at hhead
    simpa using hhead
  subst hc
  have htext : s = text ++ '<' :: r := by rw [← hs, List.takeWhile_append_dropWhile]
  have hcut : cutAt '<' s = some (text, r) := by
    have hne : '<' ∉ text := fun hm => by simpa using List.mem_takeWhile_imp hm
    rw [htext, cutAt_append hne]
  constructor
  · rw [step, h.reads.sliceFrom_html, Halt.ok_bind, find?_bracket, hcut]
    simp only [Option.map_some]
    cases m.construct w (p.position + byteLength text) p <;> rfl
  · rw [htext] at h
    exact h.advance

/-- A step fails with the error of its bracket. -/
theorem step_of_fault {c : Char} {r : List Char} {e : MarkupError} (h : m.Stands p p.position result s)
    (hs : s.dropWhile (· != '<') = c :: r)
    (hb : bracket (p.position + byteLength (s.takeWhile (· != '<'))) r = .error e) :
    m.step w p = .error (.fault e) := by
  obtain ⟨hstep, hplace⟩ := step_of_bracket (w := w) h hs
  have hc := construct_eq (w := w) hplace
  rw [hb] at hc
  rw [hstep, hc]
  rfl

/-- After a round the loop stands behind the pieces that the bracket begins. -/
theorem step_of_pieces {c : Char} {r : List Char} {ps : List Piece} (h : m.Stands p p.position result s)
    (hs : s.dropWhile (· != '<') = c :: r)
    (hb : bracket (p.position + byteLength (s.takeWhile (· != '<'))) r = .ok (ps, after)) :
    ∃ next, m.step w p = .ok (some next) ∧
      next.position = p.position + byteLength (s.takeWhile (· != '<')) + byteLength (source ps) ∧
      m.Stands next next.position
        (result ++ s.takeWhile (· != '<') ++ ps.flatMap (Piece.filled w)) after := by
  obtain ⟨hstep, hplace⟩ := step_of_bracket (w := w) h hs
  have hc := construct_eq (w := w) hplace
  rw [hb] at hc
  obtain ⟨next, hconstruct, hnext⟩ := hc
  refine ⟨next, by rw [hstep, hconstruct]; rfl, ?_, hnext⟩
  have hbefore := hplace.reads.add_byteLength
  have hafter := hnext.reads.add_byteLength
  rw [bracket_eq hb, byteLength_append] at hbefore
  omega

/-- From a place on the loop writes the rest of the text with its insertions. The induction is on the
brackets; `Stands` holds again behind what each of them begins. -/
theorem run_eq {position : Nat} (h : m.Stands p p.position result s) (hp : p.position = position) :
    m.run w p =
      Halt.relay (fun ps => encode (result ++ ps.flatMap (Piece.filled w))) (walk position s) := by
  fun_induction walk position s generalizing p result with
  | case1 =>
    rename_i s text hs
    have htext : text = s := by
      have hw := List.takeWhile_append_dropWhile (p := (· != '<')) (l := s)
      rwa [hs, List.append_nil] at hw
    rw [run_of_none (step_of_nil h.reads hs), htext]
    obtain ⟨written, pending, rfl, hout, hreads, -⟩ := h
    rw [hreads.sliceFrom_html, hout]
    simp [Halt.relay, Except.map, Piece.filled]
  | case2 =>
    rename_i s text c r hs here e hb
    subst hp
    exact run_of_error (step_of_fault h hs hb)
  | case3 =>
    rename_i s text c r hs here ps after hb e hrest ih
    subst hp
    obtain ⟨next, hstep, hplace, hnext⟩ := step_of_pieces (w := w) h hs hb
    rw [run_of_some hstep, ih hnext hplace, hrest]
    rfl
  | case4 =>
    rename_i s text c r hs here ps after hb rest hrest ih
    subst hp
    obtain ⟨next, hstep, hplace, hnext⟩ := step_of_pieces (w := w) h hs hb
    rw [run_of_some hstep, ih hnext hplace, hrest]
    simp only [Halt.relay, List.cons_append, List.flatMap_cons, List.flatMap_append, Piece.filled,
      List.append_assoc, text]

/-- At the beginning nothing is written and all is to be read. -/
theorem stands_ofText (s : List Char) : (ofText s).Stands ⟨[], 0, 0⟩ 0 [] s :=
  ⟨[], [], rfl, rfl, reads_ofText s, rfl⟩

/-- Writing into the bytes of a text gives the bytes of the text with its insertions, or its error. -/
theorem inject_ofText (w : Insertions) (s : List Char) :
    (ofText s).inject w = Halt.relay encode (Markup.inject w s) := by
  rw [inject, run_eq (stands_ofText s) rfl, Markup.inject, Markup.pieces]
  cases walk 0 s <;> rfl

/-- What the scan of the characters finds is never a breach. -/
theorem not_breach_of_relay {α β : Type} (f : α → β) (found : Except MarkupError α) :
    Halt.relay f found ≠ .error .breach := by
  cases found <;> simp [Halt.relay]

/-- Both loops begin each round before the end of the bytes and end it further on, whatever the bytes are.
On the bytes of a text no check fails, neither in a start tag by itself nor while text is written, and what is
written are the bytes of the text with its insertions. -/
theorem rounds_advance_in_bounds (w : Insertions) (s : List Char) :
    (∀ m p next, step w m p = .ok (some next) →
      p.position < m.html.length ∧ p.position < next.position) ∧
    (∀ m start offset name behind, round m start offset = .ok (.named name behind) →
      offset < m.html.length ∧ offset < behind) ∧
    (∀ front rest, s = front ++ '<' :: rest → (ofText s).tag (byteLength front) ≠ .error .breach) ∧
    (ofText s).inject w ≠ .error .breach ∧
    (ofText s).inject w =
      match Markup.inject w s with
      | .ok out => .ok (encode out)
      | .error e => .error (.fault e) := by
  have hinject := inject_ofText w s
  refine ⟨fun m p next h => lt_of_step h, fun m start offset name behind h => lt_of_round h, ?_, ?_, ?_⟩
  · rintro front rest rfl
    have hreads : (ofText (front ++ '<' :: rest)).Reads (byteLength front) ('<' :: rest) := ⟨front, rfl, rfl⟩
    rw [tag_eq hreads]
    exact not_breach_of_relay _ _
  · rw [hinject]
    exact not_breach_of_relay _ _
  · rw [hinject]
    cases Markup.inject w s <;> rfl

/-- A comment and an attribute without a name, both next to characters of two bytes. -/
theorem rounds_advance_past_wide_characters :
    (∃ next, step {} (ofText "é<!--ß--><form =ß>".toList) ⟨[], 0, 0⟩ = .ok (some next) ∧
      0 < next.position) ∧
    (round (ofText "é<!--ß--><form =ß>".toList) 11 16 = .ok (.named [] 20) ∧ 16 < 20) ∧
    (ofText "é<!--ß--><form =ß>".toList).tag 11 ≠ .error .breach := by
  obtain ⟨hsteps, hrounds, htags, -⟩ := rounds_advance_in_bounds {} "é<!--ß--><form =ß>".toList
  have hcomment : bracket 2 "!--ß--><form =ß>".toList =
      .ok ([.verbatim "<!--ß-->".toList], "<form =ß>".toList) := by decide
  obtain ⟨next, hstep, -⟩ := step_of_pieces (w := {}) (stands_ofText "é<!--ß--><form =ß>".toList) rfl hcomment
  have hreads : (ofText "é<!--ß--><form =ß>".toList).Reads 16 " =ß>".toList :=
    ⟨"é<!--ß--><form".toList, rfl, by decide⟩
  have hround : round (ofText "é<!--ß--><form =ß>".toList) 11 16 = .ok (.named [] 20) :=
    round_of_attribute hreads rfl (by decide)
  exact ⟨⟨next, hstep, (hsteps _ _ _ hstep).2⟩, ⟨hround, (hrounds _ _ _ _ _ hround).2⟩,
    htags "é<!--ß-->".toList "form =ß>".toList (by decide)⟩

/-- An offset inside of a character is no boundary. -/
example : (ofText ['ä']).sliceFrom (encode ['ä']) 1 = .error .breach := by decide

end MarkupBytes

end Palisade
