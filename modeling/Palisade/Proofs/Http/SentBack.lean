import Palisade.Codec.Base16
import Palisade.Http.Cookie
import Palisade.Http.Request
import Palisade.Proofs.Text.Pieces

/-!
# What clients send back

A client sends back values that it was given: in the fields of a form, where each character stands for
itself or for the codes of its bytes, and in cookies, of which it sends the name and the value alone.
The main statements say that a request has the values that were sent. For a form this takes a value
without the characters that have a meaning of their own there; every cookie that can be made comes back.
-/
namespace Palisade

open Palisade.Text

/-! ### Percent codes -/

namespace Percent

/-- A byte that is no sign stands for itself. -/
theorem decode_cons_of_ne {x : UInt8} (h : x ≠ sign) (rest : Bytes) :
    decode (x :: rest) = x :: decode rest := by
  match rest with
  | [] => rfl
  | [_] => rfl
  | _ :: _ :: _ => rw [decode, if_neg h]

/-- Bytes without a sign stand for themselves, whatever stands behind them. -/
theorem decode_append_of_not_mem {s : Bytes} (h : sign ∉ s) (rest : Bytes) :
    decode (s ++ rest) = s ++ decode rest := by
  induction s with
  | nil => rfl
  | cons x s ih =>
    rw [List.mem_cons, not_or] at h
    rw [List.cons_append, decode_cons_of_ne (Ne.symm h.1), ih h.2, List.cons_append]

/-- No other character than the percent sign has the byte of the percent sign. -/
theorem sign_not_mem_encodeChar {c : Char} (h : c ≠ '%') : sign ∉ encodeChar c :=
  ofNat_not_mem_encodeChar (by decide) fun he => h (Char.toNat_inj.1 he)

/-- The codes of bytes: for each a percent sign and two digits. -/
inductive Codes : Bytes → List Char → Prop where
  | nil : Codes [] []
  | cons {high low : Char} {h l : Nat} {bytes : Bytes} {written : List Char}
      (hh : Base16.value? high = some h) (hl : Base16.value? low = some l)
      (rest : Codes bytes written) :
      Codes (UInt8.ofNat (h * 16 + l) :: bytes) ('%' :: high :: low :: written)

/-- A digit is one byte. -/
theorem encodeChar_of_value? {c : Char} {n : Nat} (h : Base16.value? c = some n) :
    ∃ b, encodeChar c = [b] ∧ hexValue? b = some n := by
  unfold Base16.value? at h
  split at h
  · rename_i hc
    refine ⟨UInt8.ofNat c.toNat, ?_, h⟩
    unfold encodeChar
    simp only [if_pos hc]
  · cases h

/-- Codes are read as the bytes that they are of. -/
theorem decode_codes {bytes : Bytes} {written : List Char} (h : Codes bytes written)
    (rest : Bytes) : decode (encode written ++ rest) = bytes ++ decode rest := by
  induction h with
  | nil => rfl
  | @cons high low h l bytes written hh hl _ ih =>
    obtain ⟨x, hx, hxv⟩ := encodeChar_of_value? hh
    obtain ⟨y, hy, hyv⟩ := encodeChar_of_value? hl
    have hb : byte? x y = some (UInt8.ofNat (h * 16 + l)) := by
      simp only [byte?, hxv, hyv, Option.pure_def, Option.bind_eq_bind, Option.bind_some]
    have he : encode ('%' :: high :: low :: written) ++ rest =
        sign :: x :: y :: (encode written ++ rest) := by
      simp only [encode_cons, hx, hy]
      rfl
    rw [he, decode, if_pos rfl, hb]
    simp only [ih, List.cons_append]

end Percent

namespace Urlencoded

/-- How a text may be written in a form: each character as it is or in the codes of its bytes. -/
inductive Spells : List Char → List Char → Prop where
  | nil : Spells [] []
  | raw {text written : List Char} (c : Char) (rest : Spells text written) :
      Spells (c :: text) (c :: written)
  | coded {c : Char} {codes text written : List Char} (hc : Percent.Codes (encodeChar c) codes)
      (rest : Spells text written) : Spells (c :: text) (codes ++ written)

namespace Spells

variable {text written : List Char}

/-- Each character as it is, a text is written as itself. -/
theorem self (s : List Char) : Spells s s := by
  induction s with
  | nil => exact .nil
  | cons c rest ih => exact .raw c ih

/-- Ways to write two texts, in a row, are a way to write both in a row. -/
theorem append {text' written' : List Char} (first : Spells text written)
    (second : Spells text' written') : Spells (text ++ text') (written ++ written') := by
  induction first with
  | nil => exact second
  | raw c _ ih => exact .raw c ih
  | coded hc _ ih =>
    rw [List.append_assoc]
    exact .coded hc ih

end Spells

/-- A mark that is no digit stands in no code. -/
theorem not_mem_codes {mark : Char} (hp : mark ≠ '%') (hd : Base16.value? mark = none)
    {bytes : Bytes} {codes : List Char} (h : Percent.Codes bytes codes) : mark ∉ codes := by
  have hdigit : ∀ {c : Char} {n : Nat}, Base16.value? c = some n → mark ≠ c := by
    rintro c n hc rfl
    rw [hd] at hc
    cases hc
  induction h with
  | nil => exact List.not_mem_nil
  | cons hh hl _ ih =>
    simp only [List.mem_cons, not_or]
    exact ⟨hp, hdigit hh, hdigit hl, ih⟩

/-- Writing a text brings in percent signs and digits only. -/
theorem Spells.not_mem {mark : Char} (hp : mark ≠ '%') (hd : Base16.value? mark = none)
    {text written : List Char} (h : Spells text written) (ht : mark ∉ text) : mark ∉ written := by
  induction h with
  | nil => exact ht
  | raw c _ ih =>
    rw [List.mem_cons, not_or] at ht ⊢
    exact ⟨ht.1, ih ht.2⟩
  | coded hc _ ih =>
    rw [List.mem_cons, not_or] at ht
    rw [List.mem_append, not_or]
    exact ⟨not_mem_codes hp hd hc, ih ht.2⟩

/-- Where there is no plus sign nothing becomes a blank. -/
theorem map_unplus {s : List Char} (h : '+' ∉ s) : s.map unplus = s := by
  refine (List.map_congr_left fun c hc => ?_).trans (List.map_id s)
  have hne : c ≠ '+' := fun he => h (he ▸ hc)
  rw [unplus, if_neg hne, id]

/-- A text without percent signs and plus signs is read from each way of writing it. -/
theorem decodePart_of_spells {text written : List Char} (h : Spells text written)
    (hpercent : '%' ∉ text) (hplus : '+' ∉ text) : decodePart written = String.ofList text := by
  have hunplus : written.map unplus = written := map_unplus (h.not_mem (by decide) (by decide) hplus)
  have hdecode : Percent.decode (encode written) = encode text := by
    clear hunplus hplus
    induction h with
    | nil => rfl
    | raw c _ ih =>
      rw [List.mem_cons, not_or] at hpercent
      rw [encode_cons, encode_cons, Percent.decode_append_of_not_mem
        (Percent.sign_not_mem_encodeChar (Ne.symm hpercent.1)), ih hpercent.2]
    | coded hc _ ih =>
      rw [List.mem_cons, not_or] at hpercent
      rw [encode_append, encode_cons, Percent.decode_codes hc, ih hpercent.2]
  rw [decodePart, hunplus, hdecode, decodeLossy_encode]

end Urlencoded

/-! ### Forms -/

namespace Request

/-- The request brings a form with the value in the first field of the name. Before and behind the
field there may be others. -/
structure Carries (r : Request) (field value : String) : Prop where
  isForm : alike (mediaType ((r.headers.get? "content-type").getD "")) formType = true
  body : ∃ earlier name written later,
    r.body = encode (List.intercalate ['&'] (earlier ++ (name ++ '=' :: written) :: later)) ∧
    (∀ part ∈ earlier ++ later, '&' ∉ part) ∧
    (∀ part ∈ earlier, (Urlencoded.decodePair part).1 ≠ field) ∧
    Urlencoded.Spells field.toList name ∧ Urlencoded.Spells value.toList written

/-- No character of the text has a meaning of its own in forms. -/
def Plain (text : String) : Prop :=
  '%' ∉ text.toList ∧ '+' ∉ text.toList ∧ '&' ∉ text.toList

/-- A form that brings a plain value has it in the field, however it was written. -/
theorem Carries.exists_form {r : Request} {field value : String} (h : r.Carries field value)
    (hf : Plain field) (he : '=' ∉ field.toList) (hv : Plain value) :
    ∃ form, r.form = .ok form ∧ form.string? field = some value := by
  obtain ⟨earlier, name, written, later, hbody, hparts, hfirst, hname, hwritten⟩ := h.body
  have hfield : '&' ∉ name ++ '=' :: written := by
    have hn : '&' ∉ name := hname.not_mem (by decide) (by decide) hf.2.2
    have hw : '&' ∉ written := hwritten.not_mem (by decide) (by decide) hv.2.2
    simp [hn, hw]
  have hpieces : pieces '&' (List.intercalate ['&'] (earlier ++ (name ++ '=' :: written) :: later)) =
      earlier ++ (name ++ '=' :: written) :: later := by
    refine pieces_intercalate (by simp) ?_
    rw [List.forall_mem_append, List.forall_mem_cons]
    rw [List.forall_mem_append] at hparts
    exact ⟨hparts.1, hfield, hparts.2⟩
  have hpair : Urlencoded.decodePair (name ++ '=' :: written) = (field, value) := by
    have hn : '=' ∉ name := hname.not_mem (by decide) (by decide) he
    unfold Urlencoded.decodePair
    rw [cutAt_append hn]
    simp only [Urlencoded.decodePart_of_spells hname hf.1 hf.2.1,
      Urlencoded.decodePart_of_spells hwritten hv.1 hv.2.1, String.ofList_toList]
  have hform : r.form = .ok ⟨Urlencoded.parse (String.ofList
      (List.intercalate ['&'] (earlier ++ (name ++ '=' :: written) :: later)))⟩ := by
    unfold form
    simp only [h.isForm, Bool.not_true, Bool.false_eq_true, if_false, hbody, ofUtf8?, decode?_encode,
      Option.map_some]
  refine ⟨_, hform, ?_⟩
  unfold Form.string? Params.get? Urlencoded.parse
  rw [String.toList_ofList, hpieces]
  have hnone : List.find? (fun p : String × String => p.1 == field)
      ((earlier.filter fun p => !p.isEmpty).map Urlencoded.decodePair) = none := by
    rw [List.find?_eq_none]
    intro p hp
    obtain ⟨part, hm, rfl⟩ := List.mem_map.1 hp
    have hne := hfirst part (List.mem_filter.1 hm).1
    simpa using hne
  rw [List.filter_append, List.map_append, List.find?_append, hnone]
  simp [hpair]

end Request

/-! ### Cookies -/

/-- Visible characters are no blanks. -/
theorem Text.isBlank_of_isVisible {c : Char} (h : isVisible c = true) : isBlank c = false := by
  unfold isVisible at h
  unfold isBlank
  simp only [Bool.and_eq_true, decide_eq_true_eq] at h
  simp only [Bool.or_eq_false_iff, Bool.and_eq_false_iff, decide_eq_false_iff_not, beq_eq_false_iff_ne]
  omega

namespace Cookie

/-- What a client sends of a cookie: what stands before the attributes. -/
def pair (c : Cookie) : String := String.ofList (Request.beforeMark ';' c.display.toList)

/-- A cookie is made of a name and a value whose characters are allowed there. -/
theorem new_eq_ok_iff {name value : String} {c : Cookie} :
    new name value = .ok c ↔
      name.toList ≠ [] ∧ (∀ x ∈ name.toList, isNameChar x = true) ∧
      (∀ x ∈ value.toList, isValueChar x = true) ∧
      c = ⟨name, value, some "/", none, none, true, true, .lax⟩ := by
  unfold new
  constructor
  · intro h
    split at h
    · cases h
    · rename_i hn
      split at h
      · cases h
      · rename_i hv
        cases h
        simp only [Bool.or_eq_true, Bool.not_eq_true', List.isEmpty_iff, List.all_eq_false, not_or,
          not_exists, not_and, Bool.not_eq_true, Bool.not_eq_false] at hn hv
        exact ⟨hn.1, hn.2, hv, rfl⟩
  · rintro ⟨hne, hn, hv, rfl⟩
    have hn' : name.toList.all isNameChar = true := List.all_eq_true.2 hn
    have hv' : value.toList.all isValueChar = true := List.all_eq_true.2 hv
    simp [hne, hn', hv']

/-- Of a cookie without semicolons in name and value a client sends just these two. -/
theorem pair_eq {c : Cookie} (hn : ';' ∉ c.name.toList) (hv : ';' ∉ c.value.toList) :
    c.pair = String.ofList (c.name.toList ++ '=' :: c.value.toList) := by
  have hd : ∃ attributes, c.display.toList =
      (c.name.toList ++ '=' :: c.value.toList) ++ ';' :: attributes := by
    unfold display parts
    simp only [List.append_assoc]
    rw [List.singleton_append, String.intercalate_cons_of_ne_nil (by simp)]
    simp only [String.toList_append, List.append_assoc]
    exact ⟨_, rfl⟩
  obtain ⟨attributes, hd⟩ := hd
  have hm : ';' ∉ c.name.toList ++ '=' :: c.value.toList := by simp [hn, hv]
  rw [pair, hd, Request.beforeMark, cutAt_append hm]

/-- A name and a value that a cookie can have are read back from what a client sends. -/
theorem readCookie_of_chars {name value : List Char} (hne : name ≠ [])
    (hn : ∀ x ∈ name, isNameChar x = true) (hv : ∀ x ∈ value, isValueChar x = true) :
    Request.readCookie (name ++ '=' :: value) =
      some (String.ofList name, String.ofList value) := by
  have hvisible : ∀ x ∈ name ++ '=' :: value, isVisible x = true := by
    rw [List.forall_mem_append, List.forall_mem_cons]
    refine ⟨?_, by decide, ?_⟩
    · intro x hx
      have h := hn x hx
      simp only [isNameChar, Bool.and_eq_true] at h
      exact h.1
    · intro x hx
      have h := hv x hx
      simp only [isValueChar, Bool.and_eq_true] at h
      exact h.1
  have htrim : trimBlanks (name ++ '=' :: value) = name ++ '=' :: value :=
    trimBoth_eq_self fun x hx => isBlank_of_isVisible (hvisible x hx)
  have hcut : '=' ∉ name := fun hm => absurd (hn '=' hm) (by decide)
  have hquotes : trimBoth (· == '\"') value = value := by
    refine trimBoth_eq_self fun x hx => beq_eq_false_iff_ne.2 ?_
    rintro rfl
    exact absurd (hv _ hx) (by decide)
  have hempty : name.isEmpty = false := List.isEmpty_eq_false_iff.2 hne
  unfold Request.readCookie
  rw [htrim, cutAt_append hcut]
  simp only [hempty, Bool.false_eq_true, if_false, hquotes]

/-- A cookie that was made comes back: a request whose only cookie line is what a client sends of it has
the value under the name. -/
theorem cookie?_of_pair {name value : String} {c : Cookie} (hc : new name value = .ok c)
    {r : Request} (hr : r.headers.getAll "cookie" = [c.pair]) : r.cookie? name = some value := by
  obtain ⟨hne, hn, hv, rfl⟩ := new_eq_ok_iff.1 hc
  have hn' : ';' ∉ name.toList := fun hm => absurd (hn ';' hm) (by decide)
  have hv' : ';' ∉ value.toList := fun hm => absurd (hv ';' hm) (by decide)
  have hm : ';' ∉ name.toList ++ '=' :: value.toList := by simp [hn', hv']
  have hcookies : r.cookies = [(name, value)] := by
    unfold Request.cookies
    rw [hr, pair_eq hn' hv', List.flatMap_singleton, String.toList_ofList, pieces_of_not_mem hm]
    simp [readCookie_of_chars hne hn hv]
  rw [Request.cookie?, hcookies]
  simp

end Cookie

end Palisade
