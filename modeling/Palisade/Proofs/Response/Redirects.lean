import Mathlib.Data.List.Basic
import Palisade.Response.Rendering

/-!
# Where redirects lead

A browser reads the address of a redirect leniently: it leaves out blanks in front of it, and tabs and line
breaks wherever they stand, before it looks for a scheme. The check on redirects looks at the text as it
is. The main statement says that no leniency leads out of the web: which redirects are rendered, and that
none of them has another scheme for a browser. To which host a redirect leads is not looked at.
-/
namespace Palisade

open Palisade.Text

/-! ### How a browser reads an address -/

namespace Browser

/-- Characters that are left out in front of an address: controls and the space. -/
def isLeading (c : Char) : Bool := c.toNat ≤ 0x20

/-- Characters that are left out wherever they stand. -/
def isBreak (c : Char) : Bool := c == '\t' || c == '\n' || c == '\r'

/-- Characters of schemes. -/
def isSchemeChar (c : Char) : Bool := c.isAlphanum || c == '+' || c == '-' || c == '.'

/-- What a browser takes of an address. -/
def cleaned (address : List Char) : List Char :=
  (address.dropWhile isLeading).filter fun c => !isBreak c

/-- The scheme of an address: what stands before its first colon, if all of this may stand in a scheme. A
slash, a question mark and a number sign may not. -/
def scheme? (address : List Char) : Option String :=
  match cutAt ':' (cleaned address) with
  | some (before, _) => if before.all isSchemeChar then some (String.ofList before) else none
  | none => none

/-- Characters above the blank are not dropped from the front. -/
theorem not_isLeading {c : Char} (h : 0x20 < c.toNat) : ¬ isLeading c = true := by
  rw [isLeading, decide_eq_true_eq]
  omega

/-- Characters above the blank are not dropped from within. -/
theorem not_isBreak {c : Char} (h : 0x20 < c.toNat) : (!isBreak c) = true := by
  have hne : ∀ b : Char, b.toNat ≤ 0x20 → (c == b) = false := by
    intro b hb
    refine beq_false_of_ne fun he => ?_
    rw [he] at h
    omega
  rw [isBreak, hne '\t' (by decide), hne '\n' (by decide), hne '\r' (by decide)]
  rfl

/-- A visible character is taken, and what is in front of it is taken as if it stood alone. -/
theorem cleaned_append (before : List Char) {c : Char} (hc : 0x20 < c.toNat) (rest : List Char) :
    cleaned (before ++ c :: rest) = cleaned before ++ c :: rest.filter fun c => !isBreak c := by
  have hdrop : (before ++ c :: rest).dropWhile isLeading = before.dropWhile isLeading ++ c :: rest := by
    rw [List.dropWhile_append, List.dropWhile_cons_of_neg (not_isLeading hc)]
    split
    · rename_i he
      rw [List.isEmpty_iff.1 he, List.nil_append]
    · rfl
  have hkeep := List.filter_cons_of_pos (p := fun c => !isBreak c) (l := rest) (not_isBreak hc)
  rw [cleaned, cleaned, hdrop, List.filter_append, hkeep]

/-- What is left of a text was in it. -/
theorem mem_of_mem_cleaned {text : List Char} {c : Char} (h : c ∈ cleaned text) : c ∈ text :=
  (List.dropWhile_sublist _).subset (List.mem_filter.1 h).1

/-- Of visible characters all are taken. -/
theorem cleaned_of_visible {text : List Char} (h : ∀ c ∈ text, 0x20 < c.toNat) : cleaned text = text := by
  have hdrop : text.dropWhile isLeading = text := by
    cases text with
    | nil => rfl
    | cons c rest => exact List.dropWhile_cons_of_neg (not_isLeading (h c List.mem_cons_self))
  rw [cleaned, hdrop]
  exact List.filter_eq_self.2 fun c hc => not_isBreak (h c hc)

/-- A scheme that a browser sees stands in front of the first colon of the address, as far as it is
taken. -/
theorem exists_of_scheme? {address : List Char} {scheme : String} (h : scheme? address = some scheme) :
    ∃ before after, address = before ++ ':' :: after ∧ ':' ∉ before ∧
      scheme.toList = cleaned before ∧ ∀ c ∈ cleaned before, isSchemeChar c = true := by
  unfold scheme? at h
  split at h
  case h_2 => cases h
  rename_i front more hcut
  obtain ⟨he, hfront⟩ := cutAt_eq_some hcut
  split at h
  case isFalse => cases h
  rename_i hall
  obtain rfl := Option.some.inj h
  have hcolon : ':' ∈ address := mem_of_mem_cleaned (he ▸ by simp)
  cases ha : cutAt ':' address with
  | none => exact absurd hcolon (cutAt_eq_none_iff.1 ha)
  | some found =>
    obtain ⟨before, after⟩ := found
    obtain ⟨rfl, hbefore⟩ := cutAt_eq_some ha
    rw [cleaned_append before (by decide), cutAt_append fun hm => hbefore (mem_of_mem_cleaned hm)] at hcut
    obtain ⟨rfl, -⟩ := Prod.mk.inj (Option.some.inj hcut)
    exact ⟨before, after, rfl, hbefore, String.toList_ofList, List.all_eq_true.1 hall⟩

/-- Controls in front of a scheme and a tab inside of it hide nothing from a browser. -/
example : scheme? "\x01 java\tscript:alert(1)".toList = some "javascript" := by decide

end Browser

/-! ### Addresses without a scheme, and of the web -/

/-- An address without a scheme: in front of every colon there is a slash, a question mark or a number
sign. -/
def SchemeFree (address : List Char) : Prop :=
  ∀ before after, address = before ++ ':' :: after → ∃ c ∈ before, c = '/' ∨ c = '?' ∨ c = '#'

/-- The schemes of the web, in any case. -/
def WebScheme (scheme : String) : Prop := alike scheme "http" = true ∨ alike scheme "https" = true

/-- An address of the web: it begins with one of its schemes and a colon. -/
def OfWeb (address : List Char) : Prop :=
  ∃ scheme after, address = scheme.toList ++ ':' :: after ∧ WebScheme scheme

/-- A location for redirects: it is not empty, keeps its line, and has no scheme or is of the web. -/
structure Followable (location : String) : Prop where
  ne_empty : location ≠ ""
  keepsLine : ∀ c ∈ location.toList, c ≠ '\r' ∧ c ≠ '\n' ∧ c ≠ '\x00'
  web : SchemeFree location.toList ∨ OfWeb location.toList

/-- The schemes of the web are written in letters. -/
theorem WebScheme.letters {scheme : String} (h : WebScheme scheme) :
    ∀ c ∈ scheme.toList, 0x40 < c.toNat := by
  obtain ⟨web, hweb, hsame⟩ : ∃ web, (web = "http" ∨ web = "https") ∧ lower scheme = lower web := by
    rcases h with h | h
    · exact ⟨"http", .inl rfl, (alike_iff _ _).1 h⟩
    · exact ⟨"https", .inr rfl, (alike_iff _ _).1 h⟩
  have hsmall : ∀ d ∈ (lower web).toList, decide (0x60 < d.toNat) = true := by
    rcases hweb with rfl | rfl
    · exact List.all_eq_true.1 (by decide)
    · exact List.all_eq_true.1 (by decide)
  intro c hc
  have hd : 0x60 < c.toLower.toNat := by
    refine of_decide_eq_true (hsmall _ ?_)
    rw [← hsame, toList_lower]
    exact List.mem_map_of_mem hc
  unfold Char.toLower at hd
  split at hd
  · rename_i hu
    have : 65 ≤ c.val.toNat := hu.1
    exact this
  · omega

/-- A browser finds no scheme in such an address: a slash in front of a colon would stand in it. -/
theorem SchemeFree.browser_eq_none {address : List Char} (h : SchemeFree address) :
    Browser.scheme? address = none := by
  cases hs : Browser.scheme? address with
  | none => rfl
  | some scheme =>
    obtain ⟨before, after, rfl, -, -, hall⟩ := Browser.exists_of_scheme? hs
    obtain ⟨c, hc, he⟩ := h before after rfl
    obtain ⟨front, more, rfl⟩ := List.append_of_mem hc
    have hvisible : 0x20 < c.toNat ∧ Browser.isSchemeChar c = false := by
      rcases he with rfl | rfl | rfl <;> decide
    have htaken := hall c (by simp [Browser.cleaned_append front hvisible.1])
    rw [hvisible.2] at htaken
    cases htaken

/-- The scheme that a browser finds in an address of the web is one of the web. -/
theorem OfWeb.browser_scheme {address : List Char} (h : OfWeb address) {scheme : String}
    (hs : Browser.scheme? address = some scheme) : WebScheme scheme := by
  obtain ⟨web, after, rfl, hweb⟩ := h
  obtain ⟨before, after', he, hbefore, hscheme, -⟩ := Browser.exists_of_scheme? hs
  have hcolon : ':' ∉ web.toList := fun hm => absurd (hweb.letters ':' hm) (by decide)
  have hcut := cutAt_append hcolon after
  rw [he, cutAt_append hbefore] at hcut
  obtain ⟨rfl, -⟩ := Prod.mk.inj (Option.some.inj hcut)
  have hvisible : ∀ c ∈ web.toList, 0x20 < c.toNat := fun c hc =>
    Nat.lt_trans (by decide) (hweb.letters c hc)
  rw [Browser.cleaned_of_visible hvisible] at hscheme
  rwa [String.toList_inj.1 hscheme]

/-! ### The check on redirects -/

namespace Rendering

/-- The check lets exactly the schemes of the web through. -/
theorem isWebScheme_iff {scheme : String} : isWebScheme scheme = true ↔ WebScheme scheme := by
  rw [isWebScheme, Bool.or_eq_true]
  rfl

/-- A scheme ends at a colon, a slash, a question mark or a number sign. -/
theorem endsScheme_eq_false_iff {c : Char} :
    endsScheme c = false ↔ c ≠ ':' ∧ c ≠ '/' ∧ c ≠ '?' ∧ c ≠ '#' := by
  simp [endsScheme, and_assoc]

/-- Letters do not end a scheme. -/
theorem endsScheme_of_web {scheme : String} (h : WebScheme scheme) :
    ∀ c ∈ scheme.toList, endsScheme c = false := by
  intro c hc
  have hletter := h.letters c hc
  rw [endsScheme_eq_false_iff]
  refine ⟨?_, ?_, ?_, ?_⟩ <;>
  · rintro rfl
    exact absurd hletter (by decide)

/-- The check finds a scheme where one stands, up to the first colon. -/
theorem scheme?_append {text : List Char} (h : ∀ c ∈ text, endsScheme c = false) (after : List Char) :
    scheme? (text ++ ':' :: after) = some (String.ofList text) := by
  have htext : ∀ c ∈ text, (!endsScheme c) = true := by
    intro c hc
    rw [h c hc]
    rfl
  have hcolon : (!endsScheme ':') = false := by decide
  unfold scheme?
  rw [List.dropWhile_append_of_pos htext, List.takeWhile_append_of_pos htext]
  simp [hcolon]

/-- A scheme that the check finds is where it looks for one. -/
theorem exists_of_scheme? {address : List Char} {scheme : String} (h : scheme? address = some scheme) :
    ∃ after, address = scheme.toList ++ ':' :: after ∧ ∀ c ∈ scheme.toList, endsScheme c = false := by
  have hs := List.takeWhile_append_dropWhile (p := fun c => !endsScheme c) (l := address)
  unfold scheme? at h
  split at h
  case h_2 => cases h
  rename_i after hd
  obtain rfl := Option.some.inj h
  rw [hd] at hs
  refine ⟨after, by rw [String.toList_ofList, hs], fun c hc => ?_⟩
  rw [String.toList_ofList] at hc
  simpa using List.all_eq_true.1 List.all_takeWhile c hc

/-- The check finds no scheme exactly if the address has none. -/
theorem scheme?_eq_none_iff {address : List Char} : scheme? address = none ↔ SchemeFree address := by
  constructor
  · intro h before after he
    by_contra hc
    simp only [not_exists, not_and, not_or] at hc
    obtain ⟨front, more, rfl, hfront, hsub⟩ : ∃ front more, address = front ++ ':' :: more ∧
        ':' ∉ front ∧ ∀ c ∈ front, c ∈ before := by
      cases hcut : cutAt ':' before with
      | none => exact ⟨before, after, he, cutAt_eq_none_iff.1 hcut, fun _ hm => hm⟩
      | some found =>
        obtain ⟨front, more⟩ := found
        obtain ⟨rfl, hfront⟩ := cutAt_eq_some hcut
        exact ⟨front, more ++ ':' :: after, by simp [he], hfront, fun c hm => by simp [hm]⟩
    have hends : ∀ c ∈ front, endsScheme c = false := fun c hm =>
      endsScheme_eq_false_iff.2 ⟨fun hcolon => hfront (hcolon ▸ hm), hc c (hsub c hm)⟩
    rw [scheme?_append hends] at h
    cases h
  · intro h
    cases hs : scheme? address with
    | none => rfl
    | some scheme =>
      obtain ⟨after, rfl, hends⟩ := exists_of_scheme? hs
      obtain ⟨c, hc, he⟩ := h _ after rfl
      obtain ⟨-, hslash, hmark, hsign⟩ := endsScheme_eq_false_iff.1 (hends c hc)
      simp [hslash, hmark, hsign] at he

/-- Where the check finds a scheme it is one of the web, or it finds none. -/
theorem web_iff {address : List Char} :
    (∀ scheme, scheme? address = some scheme → isWebScheme scheme = true) ↔
      SchemeFree address ∨ OfWeb address := by
  rw [← scheme?_eq_none_iff]
  constructor
  · intro h
    cases hs : scheme? address with
    | none => exact .inl rfl
    | some scheme =>
      obtain ⟨after, he, -⟩ := exists_of_scheme? hs
      exact .inr ⟨scheme, after, he, isWebScheme_iff.1 (h scheme hs)⟩
  · rintro (hn | ⟨web, after, rfl, hweb⟩) scheme hs
    · rw [hn] at hs
      cases hs
    · rw [scheme?_append (endsScheme_of_web hweb), String.ofList_toList] at hs
      obtain rfl := Option.some.inj hs
      exact isWebScheme_iff.2 hweb

/-- What the check lets through. -/
theorem isSafeLocation_iff {location : String} : isSafeLocation location = true ↔ Followable location := by
  have hempty : (!location.toList.isEmpty) = true ↔ location ≠ "" := by simp
  have hline : (!breaksLine location) = true ↔
      ∀ c ∈ location.toList, c ≠ '\r' ∧ c ≠ '\n' ∧ c ≠ '\x00' := by
    rw [Bool.not_eq_true', breaksLine_eq_false_iff]
  have hparts : isSafeLocation location = true ↔ (location ≠ "" ∧
      ∀ c ∈ location.toList, c ≠ '\r' ∧ c ≠ '\n' ∧ c ≠ '\x00') ∧
      ∀ scheme, scheme? location.toList = some scheme → isWebScheme scheme = true := by
    rw [isSafeLocation, Bool.and_eq_true, Bool.and_eq_true, hempty, hline]
    cases scheme? location.toList <;> simp
  rw [hparts, web_iff]
  exact ⟨fun h => ⟨h.1.1, h.1.2, h.2⟩, fun h => ⟨⟨h.ne_empty, h.keepsLine⟩, h.web⟩⟩

end Rendering

/-- A redirect that is rendered has a status of redirection and a location that the check lets through. -/
theorem render_redirect_eq_ok_iff {location : String} {status : Status} {r : Rendering} :
    render (.redirect location status) = .ok r ↔
      (300 ≤ status.code ∧ status.code < 400) ∧ Followable location ∧
        r = ⟨status, none, some location, []⟩ := by
  have hstatus : 300 ≤ status.code ∧ status.code < 400 ↔ status.isRedirection = true := by
    rw [Status.isRedirection, Bool.and_eq_true, decide_eq_true_eq, decide_eq_true_eq]
  rw [hstatus, ← Rendering.isSafeLocation_iff]
  cases hs : status.isRedirection <;> cases hl : Rendering.isSafeLocation location <;>
    simp [render, hs, hl, Rendering.ofStatus, eq_comm]

/-- Which redirects are rendered, and where they lead. Rendered are exactly those with a status of
redirection and a location that is not empty, keeps its line, and has no scheme or begins with one of the
web; what is rendered is this status with this location and nothing else. To a browser, whatever it leaves
out, the location of such a redirect has no scheme or one of the web. -/
theorem redirects_stay_on_web (location : String) (status : Status) :
    (∀ r, render (.redirect location status) = .ok r ↔
      (300 ≤ status.code ∧ status.code < 400) ∧ Followable location ∧
        r = ⟨status, none, some location, []⟩) ∧
    ∀ r, render (.redirect location status) = .ok r →
      (∀ c ∈ location.toList, c ≠ '\r' ∧ c ≠ '\n' ∧ c ≠ '\x00') ∧
      ∀ scheme, Browser.scheme? location.toList = some scheme → WebScheme scheme := by
  refine ⟨fun r => render_redirect_eq_ok_iff, fun r hr => ?_⟩
  obtain ⟨-, hf, -⟩ := render_redirect_eq_ok_iff.1 hr
  refine ⟨hf.keepsLine, fun scheme hs => ?_⟩
  rcases hf.web with hfree | hweb
  · rw [hfree.browser_eq_none] at hs
    cases hs
  · exact hweb.browser_scheme hs

end Palisade
