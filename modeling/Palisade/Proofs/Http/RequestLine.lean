import Palisade.Proofs.Http.CookieLines
import Palisade.Proofs.Text.Decoding

/-!
# The address of a request

Where a request goes is said by the target on its first line and by its Host lines. The target is cut at
its first question mark when it is read. The main statements say that nothing of either is lost and that
neither can end a line: put together again the target is the one that was received, byte for byte.
-/
namespace Palisade

open Palisade.Text

namespace Head

/-- The bytes begin with a line that asks for the target: behind empty lines and a method, it stands
between the first two spaces. -/
def HasTarget (s target : Bytes) : Prop :=
  ∃ (empties : List Bytes) (method rest : Bytes), (∀ e ∈ empties, LineEnd e) ∧
    (∀ b ∈ method.head?, b ≠ lf ∧ b ≠ cr) ∧ space ∉ method ∧ space ∉ target ∧
    s = empties.flatten ++ (method ++ space :: (target ++ space :: rest))

/-- There are no empty lines before a method. -/
theorem skipEmptyLines_method {method : Bytes} (h : ∀ b ∈ method.head?, b ≠ lf ∧ b ≠ cr)
    (rest : Bytes) :
    skipEmptyLines (method ++ space :: rest) = .ok ((), method ++ space :: rest) := by
  cases method with
  | nil => exact skipEmptyLines_of_ne (by decide) (by decide) rest
  | cons b name => exact skipEmptyLines_of_ne (h b rfl).1 (h b rfl).2 _

/-- The target of a head that is found is the one on its first line. -/
theorem hasTarget_iff {s rest : Bytes} {head : Head} (h : scan s = .ok (head, rest)) {target : Bytes} :
    HasTarget s target ↔ target = utf8 head.target := by
  obtain ⟨bytes, tail, hfirst⟩ := firstLine_of_scan h
  obtain ⟨version, ending, -, -, hskip⟩ := hfirst.written
  obtain rfl := ofUtf8?_eq_some_iff.1 hfirst.text
  have hmethod : space ∉ head.method := fun hm => absurd (hfirst.method space hm) (by decide)
  have htarget : space ∉ utf8 head.target := fun hm => absurd (hfirst.visible space hm) (by decide)
  constructor
  · rintro ⟨empties, method, after, hempties, hbegins, hm, ht, rfl⟩
    rw [skipEmptyLines_flatten hempties, skipEmptyLines_method hbegins, Except.ok.injEq,
      Prod.mk.injEq] at hskip
    have hline := cutAt_append hm (target ++ space :: after)
    rw [hskip.2, cutAt_append hmethod, Option.some.injEq, Prod.mk.injEq] at hline
    have hcut := cutAt_append ht after
    rw [← hline.2, cutAt_append htarget, Option.some.injEq, Prod.mk.injEq] at hcut
    exact hcut.1.symm
  · rintro rfl
    obtain ⟨empties, hempties, rfl⟩ := exists_empties hskip
    refine ⟨empties, head.method, _, hempties, fun b hb => ?_, hmethod, htarget, rfl⟩
    have htoken := hfirst.method b (List.mem_of_mem_head? hb)
    constructor <;>
    · rintro rfl
      exact absurd htoken (by decide)

/-- The values of fields are made of the bytes of values. -/
theorem isValueByte_of_lines {lines : List Bytes} {fields : List (Bytes × Bytes)}
    (h : List.Forall₂ LineFor lines fields) : ∀ field ∈ fields, ∀ b ∈ field.2, isValueByte b = true := by
  induction h with
  | nil => exact List.forall_mem_nil _
  | cons hline _ ih => exact List.forall_mem_cons.2 ⟨hline.value, ih⟩

/-- The host that fields ask for: the first value of the name that is a text, or nothing. -/
def hostOf (fields : List (Bytes × Bytes)) : Bytes :=
  ((valuesOf fields "host").find? fun value => (ofUtf8? value).isSome).getD []

end Head

namespace Request

variable {buffer : Bytes} {r : Request} {start : Nat}

/-- A request that was read did not come encrypted, as far as its bytes tell. -/
theorem tls_of_parse (h : parse buffer = .ok (r, start)) : r.tls = false := by
  obtain ⟨head, -, hbare, -⟩ := scan_of_parse h
  exact congrArg Request.tls hbare

/-! ### The target -/

/-- The target of a request, put together again. -/
def target (r : Request) : String :=
  r.path ++ match r.query with
    | some query => "?" ++ query
    | none => ""

/-- What is cut at the first question mark is put together again, whatever stands behind it. -/
theorem target_ofHead (head : Head) : (ofHead head).target = head.target := by
  unfold ofHead splitTarget target
  cases hcut : cutAt '?' head.target.toList with
  | none => exact String.append_empty
  | some found =>
    obtain ⟨path, query⟩ := found
    obtain ⟨he, -⟩ := cutAt_eq_some hcut
    refine String.toList_inj.1 ?_
    simp [he]

/-- A request that was read has the target and the fields of a head that was found. -/
theorem exists_head (h : parse buffer = .ok (r, start)) :
    ∃ head rest, Head.scan buffer = .ok (head, rest) ∧ r.target = head.target ∧
      r.headers = headersOf head.fields := by
  obtain ⟨head, hs, hbare, -⟩ := scan_of_parse h
  exact ⟨head, _, hs, (congrArg Request.target hbare).trans (target_ofHead head),
    congrArg Request.headers hbare⟩

/-- The target of a request that was read is the one that was received. -/
theorem hasTarget_iff (h : parse buffer = .ok (r, start)) {target : Bytes} :
    Head.HasTarget buffer target ↔ target = utf8 r.target := by
  obtain ⟨head, rest, hs, htarget, -⟩ := exists_head h
  rw [htarget]
  exact Head.hasTarget_iff hs

/-! ### The host -/

/-- The first text among values has the bytes of the first value that is one. -/
theorem utf8_getD_findSome? (values : List Bytes) :
    utf8 ((values.findSome? ofUtf8?).getD "") =
      (values.find? fun value => (ofUtf8? value).isSome).getD [] := by
  induction values with
  | nil => rfl
  | cons value others ih =>
    rw [List.findSome?_cons, List.find?_cons]
    cases hv : ofUtf8? value with
    | none => exact ih
    | some text => exact (ofUtf8?_eq_some_iff.1 hv).symm

/-- The host of a request that was read is the one that its lines ask for. -/
theorem utf8_host (h : parse buffer = .ok (r, start)) {fields : List (Bytes × Bytes)}
    (hf : Head.HasFields buffer fields) : utf8 r.host = Head.hostOf fields := by
  obtain ⟨head, rest, hs, -, hheaders⟩ := exists_head h
  obtain rfl := (Head.hasFields_iff hs).1 hf
  rw [host, hheaders, Headers.get?_eq_head?_getAll, getAll_headersOf, List.head?_filterMap,
    utf8_getD_findSome?, Head.hostOf]

/-! ### Lines -/

/-- A text keeps its line if no byte of it ends one. -/
theorem breaksLine_of_bytes {p : UInt8 → Bool} {text : String}
    (hends : p 13 = false ∧ p 10 = false ∧ p 0 = false)
    (h : ∀ b ∈ utf8 text, p b = true) : breaksLine text = false := by
  have hnot : ∀ c : Char, c.toNat < 0x80 → p (UInt8.ofNat c.toNat) = false → c ∉ text.toList := by
    intro c hn hp hc
    rw [h _ (mem_encode_of_mem hc hn)] at hp
    cases hp
  rw [breaksLine_eq_false_iff]
  intro c hc
  refine ⟨?_, ?_, ?_⟩ <;> rintro rfl
  · exact hnot '\r' (by decide) hends.1 hc
  · exact hnot '\n' (by decide) hends.2.1 hc
  · exact hnot '\x00' (by decide) hends.2.2 hc

/-- The target of a request that is read keeps its line. -/
theorem breaksLine_target (h : parse buffer = .ok (r, start)) : breaksLine r.target = false := by
  obtain ⟨head, rest, hs, htarget, -⟩ := exists_head h
  obtain ⟨bytes, tail, hfirst⟩ := Head.firstLine_of_scan hs
  obtain rfl := ofUtf8?_eq_some_iff.1 hfirst.text
  rw [htarget]
  exact breaksLine_of_bytes (p := Head.isTargetByte) (by decide) hfirst.visible

/-- So do the values of its headers. -/
theorem breaksLine_value (h : parse buffer = .ok (r, start)) :
    ∀ f ∈ r.headers.fields, breaksLine f.value = false := by
  obtain ⟨head, rest, hs, -, hheaders⟩ := exists_head h
  obtain ⟨bytes, tail, hfirst⟩ := Head.firstLine_of_scan hs
  obtain ⟨lines, ending, hlines, -, -⟩ := Head.exists_lines hfirst.fields
  intro f hf
  rw [hheaders] at hf
  obtain ⟨field, hfield, hread⟩ := List.mem_filterMap.1 hf
  obtain ⟨value, hvalue, rfl⟩ := Option.map_eq_some_iff.1 hread
  have hbytes := Head.isValueByte_of_lines hlines field hfield
  rw [ofUtf8?_eq_some_iff.1 hvalue] at hbytes
  exact breaksLine_of_bytes (p := Head.isValueByte) (by decide) hbytes

/-- So does its host. -/
theorem breaksLine_host (h : parse buffer = .ok (r, start)) : breaksLine r.host = false := by
  rw [host, Headers.get?]
  cases hf : r.headers.fields.find? (·.named "host") with
  | none => rfl
  | some f => exact breaksLine_value h f (List.mem_of_find?_eq_some hf)

end Request

end Palisade
