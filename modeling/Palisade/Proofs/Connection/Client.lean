import Palisade.Http.Method
import Palisade.Http.Reply
import Palisade.Proofs.Response.Operations
import Palisade.Text.Blank
import Palisade.Text.Split

/-!
# Reading replies

A client that knows the methods of its requests reads what a server sends: lines up to an empty one,
and then as many bytes as the length says, or none if the method or the status rules a body out. It
refuses what is no text, has no length or is encoded for the transfer. The main statement says what
such a client makes of replies that were written one behind the other.
-/
namespace Palisade

open Palisade.Text ResponseHeaders

/-- A response as a client has it. -/
structure Answer where
  /-- The number of the status. -/
  code : Nat
  /-- The header fields, in order. -/
  fields : List Field
  /-- The body. -/
  body : Bytes
  deriving Repr, DecidableEq

namespace Client

/-- What ends a line. -/
def lineEnd : Bytes := [13, 10]

/-- The first line, and the bytes behind it. -/
def readLine (s : Bytes) : Option (List Char × Bytes) :=
  match cutPattern lineEnd s with
  | some (line, rest) => (decode? line).map fun text => (text, rest)
  | none => none

/-- The status of a status line. The reason is not looked at. -/
def readCode (line : List Char) : Option Nat :=
  match cutAt ' ' line with
  | some (version, rest) =>
    if version = "HTTP/1.1".toList then (cutAt ' ' rest).bind fun (code, _) => readDigits? code
    else none
  | none => none

/-- Blanks around the value of a field do not belong to it. -/
def isPadding (c : Char) : Bool := c == ' ' || c == '\t'

/-- A field without the blanks around its value. -/
def unpadded (name value : List Char) : Field :=
  ⟨String.ofList name, String.ofList (trimBoth isPadding value)⟩

/-- The field of a header line. -/
def readField (line : List Char) : Option Field :=
  match cutAt ':' line with
  | some (name, value) =>
    if isToken (String.ofList name) then some (unpadded name value) else none
  | none => none

/-- A line that is read takes a byte, if only that of its end. -/
theorem length_lt_of_readLine {s rest : Bytes} {line : List Char}
    (h : readLine s = some (line, rest)) : rest.length < s.length := by
  unfold readLine at h
  split at h
  · rename_i hc
    obtain ⟨text, -, he⟩ := Option.map_eq_some_iff.1 h
    simp only [Prod.mk.injEq] at he
    rw [← he.2]
    exact length_after_cutPattern hc (by decide)
  · cases h

/-- The fields up to the empty line, and the bytes behind that. -/
def readFields (s : Bytes) : Option (List Field × Bytes) :=
  match _h : readLine s with
  | none => none
  | some (line, rest) =>
    if line.isEmpty then some ([], rest)
    else match readField line with
      | none => none
      | some field => (readFields rest).map fun (others, after) => (field :: others, after)
termination_by s.length
decreasing_by exact length_lt_of_readLine _h

/-- The length that fields say the body has. They say it once. -/
def length? (fields : List Field) : Option Nat :=
  match (Headers.mk fields).getAll "Content-Length" with
  | [value] => readDigits? value.toList
  | _ => none

/-- Whether a response has no body, whatever its length says. -/
def isBodyless (method : Method) (code : Nat) : Bool :=
  method == .head || code == 204 || code == 304

/-- The body of a response, and the bytes behind it. -/
def readBody (method : Method) (code : Nat) (fields : List Field) (s : Bytes) :
    Option (Bytes × Bytes) :=
  if isBodyless method code then some ([], s)
  else match length? fields with
    | none => none
    | some n => if s.length < n then none else some (s.take n, s.drop n)

/-- The response to a request with a method, and the bytes behind it. -/
def read (method : Method) (s : Bytes) : Option (Answer × Bytes) := do
  let (line, s) ← readLine s
  let code ← readCode line
  let (fields, s) ← readFields s
  if (Headers.mk fields).contains "Transfer-Encoding" then none
  else
    let (body, s) ← readBody method code fields s
    return (⟨code, fields, body⟩, s)

/-- The responses to requests with these methods, in order, and the bytes behind them. -/
def readAll : List Method → Bytes → Option (List Answer × Bytes)
  | [], s => some ([], s)
  | method :: methods, s =>
    match read method s with
    | none => none
    | some (answer, after) =>
      (readAll methods after).map fun (answers, rest) => (answer :: answers, rest)

end Client

/-- A field as it is read back. -/
def Field.shown (f : Field) : Field := Client.unpadded f.name.toList f.value.toList

/-- The name is a token and not that of the encoding for the transfer. -/
def PlainName (name : String) : Prop :=
  isToken name = true ∧ alike name "Transfer-Encoding" = false

/-- Whether a name is plain can be computed. -/
instance (name : String) : Decidable (PlainName name) := inferInstanceAs (Decidable (_ ∧ _))

/-- A field that can be read back: its name is plain, and its value keeps its line. -/
structure Field.Readable (f : Field) : Prop where
  plain : PlainName f.name
  keepsLine : breaksLine f.value = false

namespace Reply

/-- A status line without its end. -/
def statusText (s : Status) : List Char :=
  "HTTP/1.1 ".toList ++ decimal s.code ++ " ".toList ++ s.reason.toList

/-- The status line is its text with the end of a line. -/
theorem statusLine_eq (s : Status) : statusLine s = statusText s ++ "\r\n".toList := rfl

/-- The text of a status line: the version, the number and the reason, with blanks between them. -/
theorem statusText_eq (s : Status) :
    statusText s = "HTTP/1.1".toList ++ ' ' :: (decimal s.code ++ ' ' :: s.reason.toList) := by
  have hspaces : "HTTP/1.1 ".toList ++ decimal s.code ++ " ".toList ++ s.reason.toList =
      "HTTP/1.1".toList ++ ' ' :: (decimal s.code ++ ' ' :: s.reason.toList) := by simp
  exact hspaces

/-- A status line breaks off nowhere: it has no carriage return. -/
theorem not_mem_statusText (s : Status) : '\r' ∉ statusText s := by
  have hreason : '\r' ∉ s.reason.toList := by cases s <;> decide
  rw [statusText_eq]
  simp only [List.mem_append, List.mem_cons, not_or]
  exact ⟨by decide, by decide, not_mem_decimal (by decide) _, by decide, hreason⟩

/-- The field of the length. -/
def lengthField (r : Reply) : Field := ⟨"Content-Length", showNat r.body.length⟩

/-- All header fields that are sent. -/
def sent (r : Reply) : List Field := r.framed.fields ++ [r.lengthField]

/-- A reply as it was produced, apart from the blanks around the values of its fields. -/
def produced (r : Reply) : Answer where
  code := r.status.code
  fields := r.sent.map Field.shown
  body := r.body

end Reply

/-! ### Reading one reply -/

namespace Client

/-- What is written without a carriage return has none among its bytes. -/
theorem not_mem_encode {line : List Char} (h : '\r' ∉ line) : (13 : UInt8) ∉ encode line := by
  intro hm
  obtain ⟨c, hc, hb⟩ := List.mem_flatMap.1 hm
  have hne : c.toNat ≠ 13 := by
    intro he
    have hcr : c = '\r' := Char.toNat_inj.1 he
    exact h (hcr ▸ hc)
  exact ofNat_not_mem_encodeChar (by decide) hne hb

/-- A line without a carriage return is read back. -/
theorem readLine_encode {line : List Char} (h : '\r' ∉ line) (rest : Bytes) :
    readLine (encode (line ++ "\r\n".toList) ++ rest) = some (line, rest) := by
  have hend : encode "\r\n".toList = lineEnd := by decide
  have hcut := cutPattern_append (not_mem_encode h) [10] rest
  rw [encode_append, hend, List.append_assoc]
  unfold readLine
  rw [lineEnd, hcut]
  simp only [decode?_encode, Option.map_some]

/-- A status line is read back. -/
theorem read_statusLine (s : Status) (rest : Bytes) :
    ∃ line, readLine (encode (Reply.statusLine s) ++ rest) = some (line, rest) ∧
      readCode line = some s.code := by
  have hversion : ' ' ∉ "HTTP/1.1".toList := by decide
  have hcode : ' ' ∉ decimal s.code := not_mem_decimal (by decide) s.code
  refine ⟨_, readLine_encode (Reply.not_mem_statusText s) rest, ?_⟩
  unfold readCode
  rw [Reply.statusText_eq, cutAt_append hversion]
  simp only [if_true, cutAt_append hcode, Option.bind_some, readDigits?_decimal]

/-- A character that is in no token is not in a name that is one. -/
theorem not_mem_of_isToken {name : String} (h : isToken name = true) {c : Char}
    (hc : isTokenChar c = false) : c ∉ name.toList := by
  intro hm
  have hall := List.all_eq_true.1 (Bool.and_eq_true_iff.1 h).2 c hm
  rw [hc] at hall
  cases hall

/-- A header line is read back, apart from the blanks around the value. -/
theorem readField_headerLine {name value : String} (h : isToken name = true) :
    readField (name.toList ++ ": ".toList ++ value.toList) =
      some (unpadded name.toList value.toList) := by
  have hline : name.toList ++ ": ".toList ++ value.toList =
      name.toList ++ ':' :: (' ' :: value.toList) := by simp
  have hname : ':' ∉ name.toList := not_mem_of_isToken h (by decide)
  have hvalue : unpadded name.toList (' ' :: value.toList) = unpadded name.toList value.toList := by
    rw [unpadded, unpadded, trimBoth_cons (by decide)]
  unfold readField
  rw [hline, cutAt_append hname]
  simp only [String.ofList_toList, h, if_true, hvalue]

/-- An empty line ends the fields. -/
theorem readFields_of_empty {s rest : Bytes} (h : readLine s = some ([], rest)) :
    readFields s = some ([], rest) := by
  rw [readFields.eq_def]
  split <;> simp_all

/-- A line that is not empty gives a field, in front of those behind it. -/
theorem readFields_of_field {s rest : Bytes} {line : List Char} {field : Field}
    (h : readLine s = some (line, rest)) (hne : line ≠ []) (hf : readField line = some field) :
    readFields s = (readFields rest).map fun (others, after) => (field :: others, after) := by
  rw [readFields.eq_def]
  split <;> simp_all

/-- Header lines up to the empty line are read back, whatever follows them. -/
theorem readFields_lines {fields : List Field} (hf : ∀ f ∈ fields, f.Readable) (rest : Bytes) :
    readFields (encode (fields.flatMap (fun f => Reply.headerLine f.name f.value) ++ "\r\n".toList) ++
      rest) = some (fields.map Field.shown, rest) := by
  induction fields with
  | nil => exact readFields_of_empty (readLine_encode List.not_mem_nil rest)
  | cons f others ih =>
    rw [List.forall_mem_cons] at hf
    obtain ⟨⟨⟨token, -⟩, keepsLine⟩, hothers⟩ := hf
    rw [breaksLine_eq_false_iff] at keepsLine
    have hline : '\r' ∉ f.name.toList ++ ": ".toList ++ f.value.toList := by
      simp only [List.mem_append, not_or]
      exact ⟨⟨not_mem_of_isToken token (by decide), by decide⟩, fun h => (keepsLine _ h).1 rfl⟩
    have hread := readLine_encode hline
      (encode (others.flatMap (fun f => Reply.headerLine f.name f.value) ++ "\r\n".toList) ++ rest)
    rw [List.flatMap_cons, Reply.headerLine, List.append_assoc (_ ++ "\r\n".toList), encode_append,
      List.append_assoc, readFields_of_field hread (by simp) (readField_headerLine token),
      ih hothers]
    rfl

end Client

/-- All fields of the map can be read back. -/
def Headers.Readable (h : Headers) : Prop := ∀ f ∈ h.fields, f.Readable

namespace Headers

/-- Headers without a name can be read back as well. -/
theorem Readable.remove {h : Headers} (hr : h.Readable) (name : String) : (h.remove name).Readable :=
  forall_remove hr name

/-- Headers with one more field can be read back if this field can. -/
theorem Readable.insert {h : Headers} (hr : h.Readable) {name value : String}
    (hf : Field.Readable ⟨name, value⟩) : (h.insert name value).Readable := forall_insert hr hf

/-- Headers with a field in place of others can be read back if this field can. -/
theorem Readable.set {h : Headers} (hr : h.Readable) {name value : String}
    (hf : Field.Readable ⟨name, value⟩) : (h.set name value).Readable :=
  forall_set hr hf fun _ hg => ⟨hg.plain, hf.keepsLine⟩

end Headers

namespace Reply

/-- What the body and the connection ask for can be read back as well. -/
theorem readable_framed {r : Reply} (h : r.headers.Readable) : r.framed.Readable := by
  have htype : Field.Readable ⟨"Content-Type", "text/plain; charset=utf-8"⟩ :=
    ⟨by decide, by decide⟩
  have hconnection : Field.Readable ⟨"Connection", if r.keepAlive then "keep-alive" else "close"⟩ := by
    refine ⟨(by decide : PlainName "Connection"), ?_⟩
    cases r.keepAlive <;> decide
  unfold framed
  refine Headers.Readable.remove (Headers.Readable.set ?_ hconnection) _
  split
  · exact h.insert htype
  · exact h

/-- No line is left out if all of them can be read back. -/
theorem lines_eq {r : Reply} (h : r.framed.Readable) : r.lines = r.framed.fields := by
  refine List.filter_eq_self.2 fun f hf => ?_
  have hf := h f hf
  simp [isLine, breaksLine_of_isToken hf.plain.1, hf.keepsLine]

/-- The field of the length can be read back. -/
theorem readable_lengthField (r : Reply) : r.lengthField.Readable :=
  ⟨(by decide : PlainName "Content-Length"), breaksLine_showNat r.body.length⟩

/-- The field of the length has no blanks around its value. -/
theorem shown_lengthField (r : Reply) : r.lengthField.shown = r.lengthField := by
  have htrim : trimBoth Client.isPadding (decimal r.body.length) = decimal r.body.length := by
    refine trimBoth_eq_self fun c hc => ?_
    cases hp : Client.isPadding c with
    | false => rfl
    | true =>
      have hblank : c = ' ' ∨ c = '\t' := by simpa [Client.isPadding] using hp
      rcases hblank with rfl | rfl <;> exact absurd hc (not_mem_decimal (by decide) _)
  simp only [Field.shown, Client.unpadded, lengthField, showNat, String.toList_ofList, htrim,
    String.ofList_toList]

/-- What is sent can be read back if the headers of the reply can. -/
theorem readable_sent {r : Reply} (h : r.headers.Readable) : ∀ f ∈ r.sent, f.Readable := by
  rw [sent, List.forall_mem_append]
  exact ⟨readable_framed h, List.forall_mem_singleton.2 r.readable_lengthField⟩

/-- The bytes of a reply are a status line, a line for each field that is sent, an empty line and the
body. -/
theorem wire_eq {r : Reply} (h : r.headers.Readable) :
    r.wire = encode (statusLine r.status) ++
      (encode (r.sent.flatMap (fun f => headerLine f.name f.value) ++ "\r\n".toList) ++ r.body) := by
  have hhead : r.head = statusLine r.status ++
      (r.sent.flatMap (fun f => headerLine f.name f.value) ++ "\r\n".toList) := by
    unfold head sent
    rw [lines_eq (readable_framed h), List.flatMap_append, List.flatMap_singleton, List.append_assoc,
      List.append_assoc, List.append_assoc]
    rfl
  rw [wire, hhead, encode_append, List.append_assoc]

end Reply

namespace Client

/-- The length is said once. -/
theorem length?_produced (r : Reply) : length? r.produced.fields = some r.body.length := by
  have hnone : (r.framed.fields.map Field.shown).filter (·.named "Content-Length") = [] := by
    rw [List.filter_eq_nil_iff]
    intro g hg
    obtain ⟨f, hf, rfl⟩ := List.mem_map.1 hg
    have hn : f.named "content-length" = false := by
      simpa using (List.mem_filter.1 hf).2
    have hsame : alike "content-length" "Content-Length" = true := by decide
    rw [Field.named, alike_congr_right hsame] at hn
    simpa [Field.named, Field.shown, unpadded] using hn
  have hlast : r.lengthField.named "Content-Length" = true := alike_refl _
  have hall : (Headers.mk r.produced.fields).getAll "Content-Length" = [showNat r.body.length] := by
    simp only [Headers.getAll, Reply.produced, Reply.sent, List.map_append, List.map_singleton,
      Reply.shown_lengthField, List.filter_append, hnone, List.nil_append, List.filter_cons, hlast,
      if_true, List.filter_nil]
    rfl
  unfold length?
  rw [hall]
  simp only [showNat, String.toList_ofList, readDigits?_decimal]

/-- No field says that the body is encoded for the transfer. -/
theorem not_encoded_produced {r : Reply} (h : r.headers.Readable) :
    (Headers.mk r.produced.fields).contains "Transfer-Encoding" = false := by
  rw [Headers.contains, List.any_eq_false]
  intro g hg
  obtain ⟨f, hf, rfl⟩ := List.mem_map.1 hg
  have hu := (Reply.readable_sent h f hf).plain.2
  simpa [Field.named, Field.shown, unpadded] using hu

/-- Of a reply a client reads the body, unless it does not expect one; then the body is left in front of
what follows. -/
theorem readBody_produced (r : Reply) (method : Method) (rest : Bytes) :
    readBody method r.status.code r.produced.fields (r.body ++ rest) =
      some (if isBodyless method r.status.code then ([], r.body ++ rest) else (r.body, rest)) := by
  have hn : ¬ (r.body ++ rest).length < r.body.length := by simp
  unfold readBody
  split
  · rfl
  · simp only [length?_produced, if_neg hn, List.take_left, List.drop_left]

/-- A reply is read back, whatever follows it, unless the client does not expect the body that it
has: then the body is left to be read as what follows. -/
theorem read_wire {r : Reply} (h : r.headers.Readable) (method : Method) (rest : Bytes) :
    read method (r.wire ++ rest) =
      some (if isBodyless method r.status.code then ({ r.produced with body := [] }, r.body ++ rest)
        else (r.produced, rest)) := by
  obtain ⟨line, hline, hcode⟩ := read_statusLine r.status
    (encode (r.sent.flatMap (fun f => Reply.headerLine f.name f.value) ++ "\r\n".toList) ++
      (r.body ++ rest))
  have hfields := readFields_lines (Reply.readable_sent h) (r.body ++ rest)
  have hproduced : r.sent.map Field.shown = r.produced.fields := rfl
  have hencoded := not_encoded_produced h
  have hbody := readBody_produced r method rest
  rw [hproduced] at hfields
  rw [Reply.wire_eq h, List.append_assoc, List.append_assoc]
  unfold read
  simp only [hline, hcode, hfields, hencoded, hbody, Option.bind_eq_bind, Option.bind_some,
    Bool.false_eq_true, if_false]
  cases isBodyless method r.status.code <;> rfl

/-- The answers that a client reads are the first that it reads and those behind it. -/
theorem readAll_cons_eq_some_iff {method : Method} {methods : List Method} {s after rest : Bytes}
    {answer first : Answer} {answers : List Answer} (h : read method s = some (answer, after)) :
    readAll (method :: methods) s = some (first :: answers, rest) ↔
      answer = first ∧ readAll methods after = some (answers, rest) := by
  rw [readAll, h]
  simp only [Option.map_eq_some_iff, Prod.mk.injEq, List.cons.injEq, Prod.exists]
  constructor
  · rintro ⟨answers, rest, hall, ⟨rfl, rfl⟩, rfl⟩
    exact ⟨rfl, hall⟩
  · rintro ⟨rfl, hall⟩
    exact ⟨_, _, hall, ⟨rfl, rfl⟩, rfl⟩

/-- A reply without a body where the client expects none is read back. -/
theorem read_wire_of_expected {r : Reply} (h : r.headers.Readable) {method : Method}
    (hb : isBodyless method r.status.code = true → r.body = []) (rest : Bytes) :
    read method (r.wire ++ rest) = some (r.produced, rest) := by
  rw [read_wire h]
  split
  · rename_i hbodyless
    have hempty := hb hbodyless
    have hproduced : ({ r.produced with body := [] } : Answer) = r.produced := by
      rw [Reply.produced, hempty]
    rw [hproduced, hempty, List.nil_append]
  · rfl

/-- A client that expects a body exactly where there is one reads every reply back, with nothing
missing and nothing left over. -/
theorem readAll_wires_iff {es : List (Method × Reply)} (h : ∀ e ∈ es, e.2.headers.Readable)
    (rest : Bytes) :
    readAll (es.map (·.1)) (es.flatMap (·.2.wire) ++ rest) = some (es.map (·.2.produced), rest) ↔
      ∀ e ∈ es, isBodyless e.1 e.2.status.code = true → e.2.body = [] := by
  induction es with
  | nil => simp [readAll]
  | cons e others ih =>
    rw [List.forall_mem_cons] at h ⊢
    rw [List.flatMap_cons, List.append_assoc, List.map_cons, List.map_cons]
    by_cases hb : isBodyless e.1 e.2.status.code = true → e.2.body = []
    · rw [readAll_cons_eq_some_iff (read_wire_of_expected h.1 hb _), ih h.2]
      exact and_congr_left' (iff_of_true rfl hb)
    · obtain ⟨hbodyless, hne⟩ := Classical.not_imp.1 hb
      have hread := read_wire h.1 e.1 (others.flatMap (·.2.wire) ++ rest)
      rw [if_pos hbodyless] at hread
      rw [readAll_cons_eq_some_iff hread]
      refine iff_of_false ?_ fun hall => hb hall.1
      rintro ⟨hanswer, -⟩
      exact hne (congrArg Answer.body hanswer).symm

end Client

end Palisade
