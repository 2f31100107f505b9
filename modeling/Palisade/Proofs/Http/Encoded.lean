import Mathlib.Data.List.Forall2
import Palisade.Proofs.Http.SentBack

/-!
# Encoded pairs

Keys and values may be any texts. They are written with the characters that may stand for themselves, plus
signs for spaces, and the codes of bytes for everything else; equality signs and ampersands join them. The
main statement says that pairs written so are read back whatever their texts are: from the text itself,
from the body of a form and from the query of a request. A client may choose the codes of any character
and the case of their digits. What is read from other texts is not said here.
-/
namespace Palisade

open Palisade.Text

namespace Percent

/-- Two digits behind a sign for each byte are codes of the bytes. -/
theorem codes_digits (bytes : Bytes) :
    Codes bytes (bytes.flatMap fun b => '%' :: Base16.digits b) := by
  induction bytes with
  | nil => exact .nil
  | cons b rest ih =>
    have hb : b.toNat < 256 := b.toNat_lt
    have hhigh : Base16.value? (hexDigit (b.toNat / 16)) = some (b.toNat / 16) :=
      Base16.value?_hexDigit (by omega)
    have hlow : Base16.value? (hexDigit (b.toNat % 16)) = some (b.toNat % 16) :=
      Base16.value?_hexDigit (by omega)
    have hsum : UInt8.ofNat (b.toNat / 16 * 16 + b.toNat % 16) = b := by
      rw [Nat.div_add_mod', UInt8.ofNat_toNat]
    have hcons := Codes.cons hhigh hlow ih
    rwa [hsum] at hcons

end Percent

namespace Urlencoded

/-! ### How pairs are written -/

/-- The characters that may stand for themselves: letters, digits and four marks. -/
def isSafe (c : Char) : Bool := c.isAlphanum || "-_.*".toList.contains c

/-- How a key or a value is written: safe characters as they are, spaces as plus signs, and any character
in the codes of its bytes. -/
inductive Writes : List Char → List Char → Prop where
  | nil : Writes [] []
  | safe {c : Char} {text written : List Char} (hc : isSafe c = true) (rest : Writes text written) :
      Writes (c :: text) (c :: written)
  | plus {text written : List Char} (rest : Writes text written) : Writes (' ' :: text) ('+' :: written)
  | coded {c : Char} {codes text written : List Char} (hc : Percent.Codes (encodeChar c) codes)
      (rest : Writes text written) : Writes (c :: text) (codes ++ written)

/-- How a pair is written: key and value with an equality sign between them. -/
def WritesPair (pair : String × String) (part : List Char) : Prop :=
  ∃ key value, Writes pair.1.toList key ∧ Writes pair.2.toList value ∧ part = key ++ '=' :: value

/-- How pairs are written: one after the other with ampersands between them. -/
def Serializes (pairs : List (String × String)) (written : String) : Prop :=
  ∃ parts, List.Forall₂ WritesPair pairs parts ∧ written = String.ofList (List.intercalate ['&'] parts)

/-- Every text can be written. -/
theorem exists_writes (text : List Char) : ∃ written, Writes text written := by
  induction text with
  | nil => exact ⟨[], .nil⟩
  | cons c rest ih =>
    obtain ⟨written, h⟩ := ih
    exact ⟨_, .coded (Percent.codes_digits _) h⟩

/-- Every list of pairs can be written. -/
theorem exists_serializes (pairs : List (String × String)) : ∃ written, Serializes pairs written := by
  have hparts : ∃ parts, List.Forall₂ WritesPair pairs parts := by
    induction pairs with
    | nil => exact ⟨[], .nil⟩
    | cons pair rest ih =>
      obtain ⟨parts, h⟩ := ih
      obtain ⟨key, hkey⟩ := exists_writes pair.1.toList
      obtain ⟨value, hvalue⟩ := exists_writes pair.2.toList
      exact ⟨_ :: parts, .cons ⟨key, value, hkey, hvalue, rfl⟩ h⟩
  obtain ⟨parts, h⟩ := hparts
  exact ⟨_, parts, h, rfl⟩

/-! ### What is read from them -/

/-- Writing brings in safe characters, plus signs, percent signs and digits only. -/
theorem Writes.not_mem {mark : Char} (hs : isSafe mark = false) (hplus : mark ≠ '+') (hp : mark ≠ '%')
    (hd : Base16.value? mark = none) {text written : List Char} (h : Writes text written) :
    mark ∉ written := by
  induction h with
  | nil => exact List.not_mem_nil
  | @safe c _ _ hc _ ih =>
    have hne : mark ≠ c := by
      rintro rfl
      rw [hs] at hc
      cases hc
    rw [List.mem_cons, not_or]
    exact ⟨hne, ih⟩
  | plus _ ih =>
    rw [List.mem_cons, not_or]
    exact ⟨hplus, ih⟩
  | coded hc _ ih =>
    rw [List.mem_append, not_or]
    exact ⟨not_mem_codes hp hd hc, ih⟩

/-- Every text is read from each way of writing it. The plus signs are replaced before the codes are
decoded, so plus signs that were coded remain. -/
theorem Writes.decodePart_eq {text written : List Char} (h : Writes text written) :
    decodePart written = String.ofList text := by
  have hdecode : Percent.decode (encode (written.map unplus)) = encode text := by
    induction h with
    | nil => rfl
    | @safe c _ _ hc _ ih =>
      have hplus : c ≠ '+' := by
        rintro rfl
        exact absurd hc (by decide)
      have hpercent : c ≠ '%' := by
        rintro rfl
        exact absurd hc (by decide)
      rw [List.map_cons, unplus, if_neg hplus, encode_cons, encode_cons,
        Percent.decode_append_of_not_mem (Percent.sign_not_mem_encodeChar hpercent), ih]
    | plus _ ih =>
      rw [List.map_cons, unplus, if_pos rfl, encode_cons, encode_cons,
        Percent.decode_append_of_not_mem (Percent.sign_not_mem_encodeChar (by decide)), ih]
    | coded hc _ ih =>
      have hplus : '+' ∉ _ := not_mem_codes (by decide) (by decide) hc
      rw [List.map_append, map_unplus hplus, encode_append, Percent.decode_codes hc, ih, encode_cons]
  rw [decodePart, hdecode, decodeLossy_encode]

/-- A pair is read back from every way to write it. -/
theorem WritesPair.decodePair_eq {pair : String × String} {part : List Char} (h : WritesPair pair part) :
    decodePair part = pair := by
  obtain ⟨key, value, hkey, hvalue, rfl⟩ := h
  have hmark : '=' ∉ key := hkey.not_mem (by decide) (by decide) (by decide) (by decide)
  rw [decodePair, cutAt_append hmark]
  simp only [hkey.decodePart_eq, hvalue.decodePart_eq, String.ofList_toList]

/-- The separator stands in no pair as it is written. -/
theorem WritesPair.not_mem {pair : String × String} {part : List Char} (h : WritesPair pair part) :
    '&' ∉ part := by
  obtain ⟨key, value, hkey, hvalue, rfl⟩ := h
  have hkey' : '&' ∉ key := hkey.not_mem (by decide) (by decide) (by decide) (by decide)
  have hvalue' : '&' ∉ value := hvalue.not_mem (by decide) (by decide) (by decide) (by decide)
  simp [hkey', hvalue']

/-- No pair is passed over, because the equality sign is written even between empty texts. -/
theorem WritesPair.isEmpty_eq {pair : String × String} {part : List Char} (h : WritesPair pair part) :
    part.isEmpty = false := by
  obtain ⟨key, value, -, -, rfl⟩ := h
  simp

/-- The separator stands in none of the parts. -/
theorem not_mem_of_writesPair {pairs : List (String × String)} {parts : List (List Char)}
    (h : List.Forall₂ WritesPair pairs parts) : ∀ part ∈ parts, '&' ∉ part := by
  induction h with
  | nil => simp
  | cons hpair _ ih => exact List.forall_mem_cons.2 ⟨hpair.not_mem, ih⟩

/-- All pairs are read back from their parts, however each of them is written. -/
theorem decodePair_of_writesPair {pairs : List (String × String)} {parts : List (List Char)}
    (h : List.Forall₂ WritesPair pairs parts) :
    (parts.filter fun p => !p.isEmpty).map decodePair = pairs := by
  induction h with
  | nil => rfl
  | cons hpair _ ih =>
    rw [List.filter_cons_of_pos (by simp [hpair.isEmpty_eq]), List.map_cons, ih, hpair.decodePair_eq]

/-- The pairs are read back in their order. -/
theorem Serializes.parse_eq {pairs : List (String × String)} {written : String}
    (h : Serializes pairs written) : parse written = ⟨pairs⟩ := by
  obtain ⟨parts, hparts, rfl⟩ := h
  rw [parse, String.toList_ofList]
  congr 1
  cases parts with
  | nil =>
    cases hparts
    rfl
  | cons part others =>
    have hmark : ∀ p ∈ part :: others, '&' ∉ p := not_mem_of_writesPair hparts
    rw [pieces_intercalate (List.cons_ne_nil _ _) hmark, decodePair_of_writesPair hparts]

/-! ### Where they are read -/

/-- The values of a key among pairs, in order. -/
def valuesOf (pairs : List (String × String)) (key : String) : List String :=
  pairs.filterMap fun pair => if pair.1 = key then some pair.2 else none

/-- Questions about keys are answered from these pairs alone: all values of a key in order, the first of
them, and whether the key occurs. -/
structure AnswersFrom (pairs : List (String × String)) (all : String → List String)
    (first : String → Option String) (occurs : String → Bool) : Prop where
  all_eq : ∀ key, all key = valuesOf pairs key
  first_eq : ∀ key, first key = (valuesOf pairs key).head?
  occurs_iff : ∀ key, occurs key = true ↔ key ∈ pairs.map Prod.fst

/-- The values of a key are those of the pairs with this key, in order. -/
theorem getAll_eq_valuesOf (pairs : List (String × String)) (key : String) :
    (Params.mk pairs).getAll key = valuesOf pairs key := by
  rw [Params.getAll, valuesOf]
  induction pairs with
  | nil => rfl
  | cons pair rest ih =>
    by_cases h : pair.1 = key
    · rw [List.filter_cons_of_pos (by simpa using h), List.map_cons, ih]
      simp [h]
    · rw [List.filter_cons_of_neg (by simpa using h), ih]
      simp [h]

/-- Parameters answer all questions as the pairs say. -/
theorem answersFrom_params (pairs : List (String × String)) :
    AnswersFrom pairs (Params.mk pairs).getAll (Params.mk pairs).get? (Params.mk pairs).contains where
  all_eq := getAll_eq_valuesOf pairs
  first_eq key := by rw [Params.get?_eq_head?_getAll, getAll_eq_valuesOf]
  occurs_iff key := by simp [Params.contains]

end Urlencoded

namespace Request

/-- A target is cut at its first question mark. -/
theorem splitTarget_append {path : String} (h : '?' ∉ path.toList) (query : String) :
    splitTarget (path ++ "?" ++ query) = (path, some query) := by
  have hlist : (path ++ "?" ++ query).toList = path.toList ++ '?' :: query.toList := by simp
  simp only [splitTarget, hlist, cutAt_append h, String.ofList_toList]

/-- Path and query of a request that is read are those of the target in its head. -/
theorem splitTarget_of_parse {buffer rest : Bytes} {head : Head} {r : Request} {start : Nat}
    (hs : Head.scan buffer = .ok (head, rest)) (h : parse buffer = .ok (r, start)) :
    splitTarget head.target = (r.path, r.query) := by
  simp only [parse, hs] at h
  split at h
  · cases h
  · cases h
    rfl

end Request

namespace Urlencoded

/-- Pairs of any texts can be written, and however they are written they are read back: from the text
itself, from the form of a request whose body it is, from a request whose query it is, and from a request
that was read from bytes and has it in its target behind the first question mark. -/
theorem serialized_pairs_read_back (pairs : List (String × String)) :
    (∃ written, Serializes pairs written) ∧
    ∀ written, Serializes pairs written →
      AnswersFrom pairs (parse written).getAll (parse written).get? (parse written).contains ∧
      (∀ r : Request,
        alike (Request.mediaType ((r.headers.get? "content-type").getD "")) Request.formType = true →
        r.body = utf8 written →
        ∃ form, r.form = .ok form ∧ AnswersFrom pairs form.strings form.string? form.contains) ∧
      (∀ r : Request, r.query = some written →
        AnswersFrom pairs r.params.getAll r.params.get? r.params.contains) ∧
      ∀ buffer head rest path r start, Head.scan buffer = .ok (head, rest) →
        head.target = path ++ "?" ++ written → '?' ∉ path.toList →
        Request.parse buffer = .ok (r, start) →
        r.path = path ∧ AnswersFrom pairs r.params.getAll r.params.get? r.params.contains := by
  refine ⟨exists_serializes pairs, fun written h => ?_⟩
  have hparse : parse written = ⟨pairs⟩ := h.parse_eq
  have hquery : ∀ r : Request, r.query = some written →
      AnswersFrom pairs r.params.getAll r.params.get? r.params.contains := by
    intro r hq
    simp only [Request.params, hq, hparse]
    exact answersFrom_params pairs
  refine ⟨?text, ?form, hquery, ?target⟩
  case text =>
    rw [hparse]
    exact answersFrom_params pairs
  case form =>
    intro r htype hbody
    have hform : r.form = .ok ⟨⟨pairs⟩⟩ := by
      simp only [Request.form, htype, Bool.not_true, Bool.false_eq_true, if_false, hbody, utf8, ofUtf8?,
        decode?_encode, Option.map_some, String.ofList_toList, hparse]
    exact ⟨_, hform, answersFrom_params pairs⟩
  case target =>
    intro buffer head rest path r start hs ht hp hr
    have hsplit := Request.splitTarget_of_parse hs hr
    rw [ht, Request.splitTarget_append hp, Prod.mk.injEq] at hsplit
    exact ⟨hsplit.1.symm, hquery r hsplit.2.symm⟩

end Urlencoded

end Palisade
