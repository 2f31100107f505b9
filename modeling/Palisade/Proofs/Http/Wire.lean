import Palisade.Proofs.Connection.Client
import Palisade.Proofs.Response.Fields

/-!
# Replies as bytes

The bytes of a reply are decoded with nothing known of the reply: the first empty line ends the head, the
line ends cut the head into lines, and the first colon with a space behind it cuts a line into a name and
a value. The main statement says that this finds the body and the fields that were kept, whatever the
fields and the body hold, and that the fields of the connection and of the length are there once.
-/
namespace Palisade

open Palisade.Text Palisade.Client ResponseHeaders

/-! ### Lines -/

/-- What stands between the head and the body. -/
def blankLine : Bytes := lineEnd ++ lineEnd

/-- The first empty line stands between the head and the body. -/
structure EndsHead (s head body : Bytes) : Prop where
  here : s = head ++ (blankLine ++ body)
  first : ∀ before after, s = before ++ (blankLine ++ after) → head.length ≤ before.length

/-- What stands between the line ends. -/
def splitLines (s : Bytes) : List Bytes :=
  match _h : cutPattern lineEnd s with
  | none => [s]
  | some (line, rest) => line :: splitLines rest
termination_by s.length
decreasing_by exact length_after_cutPattern _h (by decide)

/-- A line without a carriage return is cut off at its end. -/
theorem splitLines_append {line : Bytes} (h : 13 ∉ line) (rest : Bytes) :
    splitLines (line ++ (lineEnd ++ rest)) = line :: splitLines rest := by
  have hcut : cutPattern lineEnd (line ++ (lineEnd ++ rest)) = some (line, rest) :=
    cutPattern_append h [10] rest
  rw [splitLines.eq_def]
  split <;> simp_all

/-- Bytes without a carriage return are one line. -/
theorem splitLines_of_not_mem {line : Bytes} (h : 13 ∉ line) : splitLines line = [line] := by
  have hcut : cutPattern lineEnd line = none := by
    cases hc : cutPattern lineEnd line with
    | none => rfl
    | some p =>
      rw [cutPattern_eq_some hc] at h
      exact absurd (by simp [lineEnd]) h
  rw [splitLines.eq_def]
  split <;> simp_all

/-- Lines that hold no carriage return are found again. -/
theorem splitLines_intercalate {lines : List Bytes} (hne : lines ≠ [])
    (h : ∀ line ∈ lines, 13 ∉ line) : splitLines (lineEnd.intercalate lines) = lines := by
  induction lines with
  | nil => exact absurd rfl hne
  | cons line others ih =>
    rw [List.forall_mem_cons] at h
    cases others with
    | nil => simpa [List.intercalate] using splitLines_of_not_mem h.1
    | cons next rest =>
      rw [List.intercalate_cons_cons, List.append_assoc, splitLines_append h.1,
        ih (List.cons_ne_nil _ _) h.2]

/-- What is in front of a carriage return is no shorter than a line without one. -/
theorem isPrefix_of_append_eq {line rest before after : Bytes} (h : 13 ∉ line)
    (he : line ++ rest = before ++ 13 :: after) : line <+: before := by
  rcases List.append_eq_append_iff.1 he with ⟨v, rfl, -⟩ | ⟨v, rfl, hv⟩
  · exact List.prefix_append line v
  · cases v with
    | nil => simp
    | cons x v =>
      obtain rfl := (List.cons.inj hv).1
      exact absurd (by simp) h

/-- The end of a line begins no empty line unless the next line is empty. -/
theorem exists_of_append_blankLine {line rest before after : Bytes} (h : 13 ∉ line)
    (hr : rest.head? ≠ some 13) (he : line ++ (lineEnd ++ rest) = before ++ (blankLine ++ after)) :
    ∃ more, before = line ++ (lineEnd ++ more) ∧ rest = more ++ (blankLine ++ after) := by
  obtain ⟨v, rfl⟩ := isPrefix_of_append_eq h he
  rw [List.append_assoc, List.append_cancel_left_eq] at he
  match v, he with
  | [], he =>
    rw [List.nil_append, blankLine, List.append_assoc, List.append_cancel_left_eq] at he
    exact absurd (by rw [he]; rfl) hr
  | [x], he => simp [lineEnd, blankLine] at he
  | x :: y :: more, he =>
    simp only [lineEnd, List.cons_append, List.nil_append, List.cons.injEq] at he
    obtain ⟨rfl, rfl, rfl⟩ := he
    exact ⟨more, rfl, rfl⟩

/-- Lines that are not empty and have no carriage returns do not begin with one, with whatever stands
behind them. -/
theorem head?_intercalate {lines : List Bytes} (hne : lines ≠ []) (h : ∀ line ∈ lines, 13 ∉ line)
    (hempty : ∀ line ∈ lines, line ≠ []) (rest : Bytes) :
    (lineEnd.intercalate lines ++ rest).head? ≠ some 13 := by
  match lines with
  | [] => exact absurd rfl hne
  | [] :: _ => exact absurd rfl (hempty [] List.mem_cons_self)
  | (x :: line) :: others =>
    have hx := h _ List.mem_cons_self
    cases others <;> simp_all [List.intercalate, eq_comm]

/-- Behind lines none of which is empty, the first empty line is the one that follows them. -/
theorem endsHead_intercalate {lines : List Bytes} (hne : lines ≠ [])
    (h : ∀ line ∈ lines, 13 ∉ line) (hempty : ∀ line ∈ lines, line ≠ []) (body : Bytes) :
    EndsHead (lineEnd.intercalate lines ++ (blankLine ++ body)) (lineEnd.intercalate lines) body := by
  refine ⟨rfl, fun before after he => ?_⟩
  induction lines generalizing before with
  | nil => exact absurd rfl hne
  | cons line others ih =>
    rw [List.forall_mem_cons] at h hempty
    cases others with
    | nil =>
      rw [List.intercalate_singleton] at he ⊢
      exact (isPrefix_of_append_eq h.1 he).length_le
    | cons next rest =>
      have hnext := List.cons_ne_nil next rest
      rw [List.intercalate_cons_cons, List.append_assoc, List.append_assoc] at he
      obtain ⟨more, rfl, hrest⟩ :=
        exists_of_append_blankLine h.1 (head?_intercalate hnext h.2 hempty.2 _) he
      have hle := ih hnext h.2 hempty.2 more hrest
      rw [List.intercalate_cons_cons]
      simp only [List.length_append]
      omega

/-! ### Fields -/

/-- The text of the line of a field, without its end. -/
def Field.text (f : Field) : List Char := f.name.toList ++ ": ".toList ++ f.value.toList

/-- The bytes of a header line: the name, a colon, a blank and the value. -/
theorem Field.encode_text (f : Field) : encode f.text = utf8 (f.name ++ ": " ++ f.value) := by
  rw [text, utf8, String.toList_append, String.toList_append]

/-- The field of a line: what stands before the first colon with a space behind it, and behind that. -/
def splitField (line : Bytes) : Option Field :=
  (decode? line).bind fun text =>
    (cutPattern ": ".toList text).map fun (name, value) => ⟨String.ofList name, String.ofList value⟩

/-- A field is found again if its name is a token, whatever its value holds. -/
theorem splitField_encode_text {f : Field} (h : isToken f.name = true) :
    splitField (encode f.text) = some f := by
  have hcut : cutPattern ": ".toList f.text = some (f.name.toList, f.value.toList) := by
    rw [Field.text, List.append_assoc]
    exact cutPattern_append (not_mem_of_isToken h (by decide)) [' '] f.value.toList
  simp only [splitField, decode?_encode, Option.bind_some, hcut, Option.map_some,
    String.ofList_toList]

namespace Reply

variable {r : Reply}

/-- The fields that a reply is given, and the type of a body that has none. -/
def given (r : Reply) : List Field :=
  r.headers.fields ++
    if r.body ≠ [] ∧ r.headers.fieldsOf "Content-Type" = [] then
      [⟨"Content-Type", "text/plain; charset=utf-8"⟩]
    else []

/-- What becomes of the connection. -/
def connection (r : Reply) : String := if r.keepAlive then "keep-alive" else "close"

/-- The fields of a reply: those that are given, in order, apart from those of the connection and of the
length, and among them one of the connection. -/
def Framing (r : Reply) (fields : List Field) : Prop :=
  ∃ before spelling after, fields = before ++ ⟨spelling, r.connection⟩ :: after ∧
    alike spelling "Connection" = true ∧
    before ++ after = r.given.filter fun f => !f.named "Connection" && !f.named "Content-Length"

/-- A name is spelled in small letters where it is looked for. -/
theorem named_contentLength (f : Field) : f.named "content-length" = f.named "Content-Length" := by
  have hsame : alike "content-length" "Content-Length" = true := by decide
  exact alike_congr_right hsame f.name

/-- A type of the content is there exactly if there are fields for it. -/
theorem contains_contentType_iff (h : Headers) :
    h.contains "content-type" = true ↔ h.fieldsOf "Content-Type" ≠ [] := by
  have hsame : alike "content-type" "Content-Type" = true := by decide
  have hnamed : ∀ f : Field, f.named "content-type" = f.named "Content-Type" :=
    fun f => alike_congr_right hsame f.name
  simp [Headers.contains, Headers.fieldsOf, hnamed]

/-- The fields of a reply are those that it is given, with one of the connection and none of the length.
-/
theorem framed_eq (r : Reply) : r.framed =
    ((Headers.mk r.given).set "Connection" r.connection).remove "content-length" := by
  have hgiven : Headers.mk r.given =
      if !r.body.isEmpty && !r.headers.contains "content-type" then
        r.headers.insert "Content-Type" "text/plain; charset=utf-8" else r.headers := by
    have hiff := contains_contentType_iff r.headers
    unfold given
    by_cases hb : r.body = [] <;> by_cases hf : r.headers.fieldsOf "Content-Type" = [] <;>
      simp_all [Headers.insert]
  rw [hgiven]
  rfl

/-- The encoding frames the fields of a reply in this way. -/
theorem framing_framed (r : Reply) : r.Framing r.framed.fields := by
  obtain ⟨before, spelling, after, he, ha, hothers⟩ :=
    Headers.exists_setFields "Connection" r.connection r.given
  have hconnection : (⟨spelling, r.connection⟩ : Field).named "Content-Length" = false :=
    not_alike_of_alike ha (by decide)
  refine ⟨before.filter fun f => !f.named "Content-Length", spelling,
    after.filter fun f => !f.named "Content-Length", ?_, ha, ?_⟩
  · rw [framed_eq]
    simp [Headers.set, Headers.remove, he, named_contentLength, hconnection]
  · rw [← List.filter_append, hothers, List.filter_filter]
    simp only [Bool.and_comm]

/-- The lines before the body, without their ends. -/
def texts (r : Reply) : List (List Char) :=
  statusText r.status :: (r.lines ++ [r.lengthField]).map Field.text

/-- A field keeps its line exactly if neither its name nor its value breaks it. -/
theorem isLine_iff (f : Field) : isLine f = true ↔
    ∀ c ∈ f.name.toList ++ f.value.toList, c ≠ '\r' ∧ c ≠ '\n' ∧ c ≠ '\x00' := by
  rw [List.forall_mem_append, ← breaksLine_eq_false_iff, ← breaksLine_eq_false_iff, isLine,
    Bool.not_eq_true', Bool.or_eq_false_iff]

/-- The field of the length keeps its line. -/
theorem isLine_lengthField (r : Reply) : isLine r.lengthField = true := by
  have hname : breaksLine "Content-Length" = false := by decide
  simp [isLine, lengthField, hname, breaksLine_showNat]

/-- The text of a field that keeps its line has no carriage return. -/
theorem not_mem_text {f : Field} (h : isLine f = true) : '\r' ∉ f.text := by
  rw [isLine_iff, List.forall_mem_append] at h
  simp only [Field.text, List.mem_append, not_or]
  exact ⟨⟨fun hc => (h.1 _ hc).1 rfl, by decide⟩, fun hc => (h.2 _ hc).1 rfl⟩

/-- No line of a head has a carriage return in it. -/
theorem not_mem_of_mem_texts (r : Reply) : ∀ text ∈ r.texts, '\r' ∉ text := by
  rw [texts, List.forall_mem_cons]
  refine ⟨not_mem_statusText r.status, List.forall_mem_map.2 ?_⟩
  rw [List.forall_mem_append, List.forall_mem_singleton]
  exact ⟨fun f hf => not_mem_text (isLine_of_mem_lines hf), not_mem_text r.isLine_lengthField⟩

/-- No line of a head is empty. -/
theorem ne_nil_of_mem_texts (r : Reply) : ∀ text ∈ r.texts, text ≠ [] := by
  rw [texts, List.forall_mem_cons]
  exact ⟨by simp [statusText_eq], List.forall_mem_map.2 fun f _ => by simp [Field.text]⟩

/-- Only the empty text has no bytes. -/
theorem encode_eq_nil_iff (s : List Char) : encode s = [] ↔ s = [] :=
  ⟨fun h => encode_injective h, fun h => by rw [h]; rfl⟩

/-- Lines with their ends are the lines with the line end between them and behind the last. -/
theorem encode_flatMap_eq {texts : List (List Char)} (hne : texts ≠ []) :
    encode (texts.flatMap (· ++ "\r\n".toList)) =
      lineEnd.intercalate (texts.map encode) ++ lineEnd := by
  have hend : encode "\r\n".toList = lineEnd := by decide
  induction texts with
  | nil => exact absurd rfl hne
  | cons text others ih =>
    rw [List.flatMap_cons, encode_append, encode_append, hend]
    cases others with
    | nil => simp [List.intercalate]
    | cons next rest =>
      rw [ih (List.cons_ne_nil next rest)]
      simp only [List.map_cons, List.intercalate_cons_cons, List.append_assoc]

/-- A head is its lines, each with an end, and an empty line. -/
theorem head_eq (r : Reply) : r.head = r.texts.flatMap (· ++ "\r\n".toList) ++ "\r\n".toList := by
  have hline : ∀ f : Field, headerLine f.name f.value = f.text ++ "\r\n".toList := fun _ => rfl
  have hlength := hline r.lengthField
  rw [lengthField] at hlength
  rw [head, statusLine_eq, hlength, texts, List.flatMap_cons, List.flatMap_map, List.flatMap_append,
    List.flatMap_singleton]
  simp only [hline, List.append_assoc, lengthField]

/-- The bytes of a reply are its lines, with the line end between them, an empty line and the body. -/
theorem wire_eq_intercalate (r : Reply) :
    r.wire = lineEnd.intercalate (r.texts.map encode) ++ (blankLine ++ r.body) := by
  have hend : encode "\r\n".toList = lineEnd := by decide
  have hne : r.texts ≠ [] := List.cons_ne_nil _ _
  rw [wire, head_eq, encode_append, encode_flatMap_eq hne, hend, blankLine]
  simp only [List.append_assoc]

/-- The body is what stands behind the first empty line. -/
theorem endsHead_wire (r : Reply) :
    EndsHead r.wire (lineEnd.intercalate (r.texts.map encode)) r.body := by
  rw [wire_eq_intercalate]
  refine endsHead_intercalate (by simp [texts]) ?_ ?_ r.body
  · exact List.forall_mem_map.2 fun text ht => not_mem_encode (r.not_mem_of_mem_texts text ht)
  · refine List.forall_mem_map.2 fun text ht he => r.ne_nil_of_mem_texts text ht ?_
    exact (encode_eq_nil_iff text).1 he

/-- The bytes of a head are cut into the bytes of its lines. -/
theorem splitLines_head (r : Reply) :
    splitLines (lineEnd.intercalate (r.texts.map encode)) = r.texts.map encode :=
  splitLines_intercalate (by simp [texts]) <|
    List.forall_mem_map.2 fun text ht => not_mem_encode (r.not_mem_of_mem_texts text ht)

/-! ### Names that are tokens -/

/-- If the names of a reply are tokens then so are those that the encoding adds. -/
theorem isToken_of_mem_framed {r : Reply} (h : ∀ f ∈ r.headers.fields, isToken f.name = true) :
    ∀ f ∈ r.framed.fields, isToken f.name = true := by
  have hgiven : ∀ f ∈ r.given, isToken f.name = true := by
    rw [given, List.forall_mem_append]
    refine ⟨h, fun f hf => ?_⟩
    split at hf
    · rw [List.mem_singleton.1 hf]
      decide
    · cases hf
  rw [framed_eq]
  refine Headers.forall_remove (Headers.forall_set hgiven ?_ fun _ hf => hf) _
  exact (by decide : isToken "Connection" = true)

/-- The lines of fields give the fields back. -/
theorem map_splitField_tail (h : ∀ f ∈ r.headers.fields, isToken f.name = true) :
    (r.texts.map encode).tail.map splitField = (r.lines ++ [r.lengthField]).map some := by
  have htoken : ∀ f ∈ r.lines ++ [r.lengthField], isToken f.name = true := by
    rw [List.forall_mem_append, List.forall_mem_singleton]
    exact ⟨fun f hf => isToken_of_mem_framed h f (List.mem_filter.1 hf).1,
      (by decide : isToken "Content-Length" = true)⟩
  rw [texts, List.map_cons, List.tail_cons, List.map_map, List.map_map]
  exact List.map_congr_left fun f hf => splitField_encode_text (htoken f hf)

section

variable {fields : List Field} {name : String}

/-- What is given besides the connection and the length has other names. -/
theorem not_named_of_mem {f : Field}
    (h : f ∈ r.given.filter fun f => !f.named "Connection" && !f.named "Content-Length") :
    f.named "Connection" = false ∧ f.named "Content-Length" = false := by
  simpa using (List.mem_filter.1 h).2

/-- Where no field has a name, none that keeps its line has it. -/
theorem filter_named_eq_nil (h : ∀ f ∈ fields, f.named name = false) :
    (fields.filter isLine).filter (·.named name) = [] := by
  refine List.filter_eq_nil_iff.2 fun f hf => ?_
  rw [h f (List.mem_filter.1 hf).1]
  exact Bool.false_ne_true

/-- The field of the connection keeps its line. -/
theorem isLine_connection {spelling : String} (h : alike spelling "Connection" = true) :
    isLine ⟨spelling, r.connection⟩ = true := by
  have hname : breaksLine spelling = false := by
    rw [breaksLine_eq_of_alike h]
    decide
  have hvalue : breaksLine r.connection = false := by
    unfold connection
    cases r.keepAlive <;> decide
  simp [isLine, hname, hvalue]

/-- One of the fields that are sent is that of the connection. -/
theorem Framing.filter_connection (h : r.Framing fields) :
    ∃ spelling, (fields.filter isLine ++ [r.lengthField]).filter (·.named "Connection") =
      [⟨spelling, r.connection⟩] := by
  obtain ⟨before, spelling, after, rfl, ha, hothers⟩ := h
  have hnone : ∀ f ∈ before ++ after, f.named "Connection" = false :=
    fun f hf => (not_named_of_mem (hothers ▸ hf)).1
  rw [List.forall_mem_append] at hnone
  have hconnection : (⟨spelling, r.connection⟩ : Field).named "Connection" = true := ha
  have hlength : r.lengthField.named "Connection" = false :=
    (by decide : alike "Content-Length" "Connection" = false)
  refine ⟨spelling, ?_⟩
  rw [List.filter_append, List.filter_append, List.filter_cons_of_pos (isLine_connection ha),
    List.filter_append, filter_named_eq_nil hnone.1]
  simp [hconnection, hlength, filter_named_eq_nil hnone.2]

/-- One of the fields that are sent is that of the length. -/
theorem Framing.filter_contentLength (h : r.Framing fields) :
    (fields.filter isLine ++ [r.lengthField]).filter (·.named "Content-Length") =
      [r.lengthField] := by
  obtain ⟨before, spelling, after, rfl, ha, hothers⟩ := h
  have hconnection : (⟨spelling, r.connection⟩ : Field).named "Content-Length" = false :=
    not_alike_of_alike ha (by decide)
  have hnone : ∀ f ∈ before ++ after, f.named "Content-Length" = false :=
    fun f hf => (not_named_of_mem (hothers ▸ hf)).2
  have hfields : ∀ f ∈ before ++ ⟨spelling, r.connection⟩ :: after,
      f.named "Content-Length" = false := by
    rw [List.forall_mem_append] at hnone ⊢
    rw [List.forall_mem_cons]
    exact ⟨hnone.1, hconnection, hnone.2⟩
  have hlength : r.lengthField.named "Content-Length" = true := alike_refl _
  rw [List.filter_append, filter_named_eq_nil hfields]
  simp [hlength]

end

/-- What the bytes of a reply say, for every reply. The first empty line ends the head, and what stands
behind it is the body. The head is the status line and then a line for each field that is sent: in order
those of the fields that can be written on one line, and last the length of the body. If all names of
headers are tokens then the lines give these fields back, whatever their values hold; and of the fields
that are sent one is that of the connection, and one that of the length. -/
theorem wire_decodes (r : Reply) :
    ∃ head fields, r.Framing fields ∧
      let sent := fields.filter isLine ++ [r.lengthField]
      EndsHead r.wire head r.body ∧
      splitLines head = (statusText r.status :: sent.map Field.text).map encode ∧
      ((∀ f ∈ r.headers.fields, isToken f.name = true) →
        (splitLines head).tail.map splitField = sent.map some ∧
        (∃ spelling, sent.filter (·.named "Connection") = [⟨spelling, r.connection⟩]) ∧
        sent.filter (·.named "Content-Length") = [r.lengthField]) := by
  have hframing := r.framing_framed
  refine ⟨_, _, hframing, r.endsHead_wire, r.splitLines_head, fun htoken => ?_⟩
  refine ⟨?_, hframing.filter_connection, hframing.filter_contentLength⟩
  rw [splitLines_head]
  exact map_splitField_tail htoken

end Reply

end Palisade
