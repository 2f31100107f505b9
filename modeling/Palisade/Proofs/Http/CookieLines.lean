import Palisade.Proofs.Connection.Arrival
import Palisade.Proofs.Http.HeaderLines
import Palisade.Proofs.Http.SentBack

/-!
# Cookies of a request

A client sends back the cookies that it was given in one or several header lines, each cookie as its name
and its value. The main statement starts from the bytes of a request: if its cookie lines say so, then the
cookies that are read are the ones that were made, in order, and each value is the one that was given.
-/
namespace Palisade

open Palisade.Text

/-! ### Lines of a name -/

/-- The values of those fields of a head that have a name, in any case. -/
def Head.valuesOf (fields : List (Bytes × Bytes)) (name : String) : List Bytes :=
  (fields.filter fun field => alike (String.ofList (decodeLossy field.1)) name).map Prod.snd

namespace Request

/-- The values of a name are those of its lines that are texts. -/
theorem getAll_headersOf (fields : List (Bytes × Bytes)) (name : String) :
    (headersOf fields).getAll name = (Head.valuesOf fields name).filterMap ofUtf8? := by
  induction fields with
  | nil => rfl
  | cons field rest ih =>
    unfold Headers.getAll headersOf Head.valuesOf at ih ⊢
    cases hn : alike (String.ofList (decodeLossy field.1)) name <;>
      cases hv : ofUtf8? field.2 <;>
      simpa [hn, hv, Field.named] using ih

/-- Lines that were written as texts have these texts as values. -/
theorem getAll_of_valuesOf {fields : List (Bytes × Bytes)} {name : String} {values : List String}
    (h : Head.valuesOf fields name = values.map utf8) : (headersOf fields).getAll name = values := by
  have htext : ∀ value ∈ values, (ofUtf8? ∘ utf8) value = some (id value) := by
    intro value _
    rw [Function.comp_apply, ofUtf8?, utf8, decode?_encode, Option.map_some, String.ofList_toList, id]
  rw [getAll_headersOf, h, List.filterMap_map,
    List.filterMap_eq_map_iff_forall_eq_some.2 htext, List.map_id]

end Request

/-! ### Lines of cookies -/

namespace Cookie

/-- What a client sends of some cookies in one line. -/
def echo (cookies : List Cookie) : String :=
  String.intercalate "; " (cookies.map fun c => c.name ++ "=" ++ c.value)

/-- Blanks in front of a cookie are not part of it. -/
theorem readCookie_blank (s : List Char) : Request.readCookie (' ' :: s) = Request.readCookie s := by
  have htrim : trimBlanks (' ' :: s) = trimBlanks s := trimBoth_cons (by decide) s
  rw [Request.readCookie, Request.readCookie, htrim]

/-- From what is sent of a cookie its name and its value are read. -/
theorem readCookie_of_new {name value : String} {c : Cookie} (h : new name value = .ok c) :
    Request.readCookie (c.name ++ "=" ++ c.value).toList = some (c.name, c.value) := by
  obtain ⟨hne, hname, hvalue, rfl⟩ := new_eq_ok_iff.1 h
  have hpair : (name ++ "=" ++ value).toList = name.toList ++ '=' :: value.toList := by simp
  rw [hpair, readCookie_of_chars hne hname hvalue, String.ofList_toList, String.ofList_toList]

/-- What a cookie says has no semicolon in it. -/
theorem semicolon_not_mem_of_new {name value : String} {c : Cookie} (h : new name value = .ok c) :
    ';' ∉ (c.name ++ "=" ++ c.value).toList := by
  obtain ⟨-, hname, hvalue, rfl⟩ := new_eq_ok_iff.1 h
  have hn : ';' ∉ name.toList := fun hm => absurd (hname ';' hm) (by decide)
  have hv : ';' ∉ value.toList := fun hm => absurd (hvalue ';' hm) (by decide)
  simp [hn, hv]

/-- From a line of cookies that were made these cookies are read. -/
theorem filterMap_readCookie_echo {cookies : List Cookie}
    (h : ∀ c ∈ cookies, ∃ name value, new name value = .ok c) :
    (pieces ';' (echo cookies).toList).filterMap Request.readCookie =
      cookies.map fun c => (c.name, c.value) := by
  cases cookies with
  | nil => rfl
  | cons first others =>
    have hseparator : "; ".toList = ';' :: [' '] := rfl
    have hmark : ∀ part ∈ ((first :: others).map fun c => c.name ++ "=" ++ c.value).map String.toList,
        ';' ∉ part := by
      rw [List.map_map, List.forall_mem_map]
      intro c hc
      obtain ⟨name, value, hnew⟩ := h c hc
      exact semicolon_not_mem_of_new hnew
    have hread : ∀ c ∈ first :: others,
        Request.readCookie (c.name ++ "=" ++ c.value).toList = some (c.name, c.value) := by
      intro c hc
      obtain ⟨name, value, hnew⟩ := h c hc
      exact readCookie_of_new hnew
    rw [List.forall_mem_cons] at hread
    rw [List.map_cons, List.map_cons] at hmark
    rw [echo, String.toList_intercalate, hseparator, List.map_cons, List.map_cons,
      pieces_intercalate_cons (by decide) hmark, List.filterMap_cons_some hread.1, List.map_cons,
      List.filterMap_map, List.filterMap_map, List.filterMap_map]
    congr 1
    exact List.filterMap_eq_map_iff_forall_eq_some.2 fun c hc =>
      (readCookie_blank _).trans (hread.2 c hc)

/-- The first pair of a name is that of the first cookie of the name. -/
theorem lookup_map (cookies : List Cookie) (name : String) :
    (cookies.map fun c => (c.name, c.value)).lookup name =
      (cookies.find? (·.name == name)).map value := by
  induction cookies with
  | nil => rfl
  | cons c rest ih =>
    rw [List.map_cons, List.lookup_cons, List.find?_cons, ih, Bool.beq_comm]
    cases c.name == name <;> rfl

/-- Cookies that were made come back, however many and in however many lines: the request has just these,
in order and with just their values, and under a name there is the first of the name. -/
theorem cookies_of_lines {buffer : Bytes} {r : Request} {start : Nat}
    (hr : Request.parse buffer = .ok (r, start)) {fields : List (Bytes × Bytes)}
    (hf : Head.HasFields buffer fields) {lines : List (List Cookie)}
    (hl : Head.valuesOf fields "cookie" = lines.map fun cookies => utf8 (echo cookies))
    (hc : ∀ cookies ∈ lines, ∀ c ∈ cookies, ∃ name value, new name value = .ok c) :
    r.cookies = lines.flatten.map (fun c => (c.name, c.value)) ∧
    ∀ name, r.cookie? name = (lines.flatten.find? (·.name == name)).map value := by
  obtain ⟨head, hs, hbare, -⟩ := Request.scan_of_parse hr
  obtain rfl := (Head.hasFields_iff hs).1 hf
  have hheaders : r.headers = Request.headersOf head.fields := congrArg Request.headers hbare
  have hvalues : r.headers.getAll "cookie" = lines.map echo := by
    rw [hheaders]
    refine Request.getAll_of_valuesOf (hl.trans ?_)
    rw [List.map_map]
    rfl
  have hcookies : r.cookies = lines.flatten.map fun c => (c.name, c.value) := by
    rw [Request.cookies, hvalues, List.flatMap_map, List.map_flatten, ← List.flatMap_def]
    exact List.flatMap_congr fun cookies hm => filterMap_readCookie_echo (hc cookies hm)
  refine ⟨hcookies, fun name => ?_⟩
  rw [Request.cookie?, hcookies, lookup_map]

namespace Echoing

/-- A request with three cookies in two lines, one of which has a value with the mark that stands between a
name and its value. -/
def asked : Bytes := utf8
  "GET / HTTP/1.1\r\ncookie: id=a=b=; theme=dark\r\nHost: a.test\r\nCOOKIE:id=c \r\n\r\n"

/-- The cookies of the request, line by line. -/
def lines : List (List Cookie) :=
  [[⟨"id", "a=b=", some "/", none, none, true, true, .lax⟩,
    ⟨"theme", "dark", some "/", none, none, true, true, .lax⟩],
   [⟨"id", "c", some "/", none, none, true, true, .lax⟩]]

/-- The fields of the head. -/
def fields : List (Bytes × Bytes) :=
  [(utf8 "cookie", utf8 "id=a=b=; theme=dark"), (utf8 "Host", utf8 "a.test"),
    (utf8 "COOKIE", utf8 "id=c")]

/-- The cookies come back, and of the two of one name the first is found. -/
theorem cookies_of_two_lines :
    ∃ r start, Request.parse asked = .ok (r, start) ∧ Head.HasFields asked fields ∧
      Head.valuesOf fields "cookie" = lines.map (fun cookies => utf8 (echo cookies)) ∧
      r.cookies = [("id", "a=b="), ("theme", "dark"), ("id", "c")] ∧ r.cookie? "id" = some "a=b=" := by
  have hscan : (Head.scan asked).toOption.map (fun found => found.1.fields) = some fields := by
    decide +kernel
  have hf : Head.HasFields asked fields := by
    cases hs : Head.scan asked with
    | error stop =>
      rw [hs] at hscan
      cases hscan
    | ok found =>
      rw [hs] at hscan
      exact (Head.hasFields_iff hs).2 (Option.some.inj hscan).symm
  have hl : Head.valuesOf fields "cookie" = lines.map fun cookies => utf8 (echo cookies) := by
    decide +kernel
  have hnew : ∀ cookies ∈ lines, ∀ c ∈ cookies, ∃ name value, new name value = .ok c := by
    have hsome : ∀ cookies ∈ lines, ∀ c ∈ cookies, new c.name c.value = .ok c := by decide +kernel
    exact fun cookies hm c hc => ⟨c.name, c.value, hsome cookies hm c hc⟩
  have hr : Request.parse asked = .ok (⟨.get, "/", none, 1, Request.headersOf fields, [], false⟩, 75) := by
    decide +kernel
  obtain ⟨hcookies, hfirst⟩ := cookies_of_lines hr hf hl hnew
  exact ⟨_, _, hr, hf, hl, hcookies, hfirst "id"⟩

end Echoing

end Cookie

end Palisade
