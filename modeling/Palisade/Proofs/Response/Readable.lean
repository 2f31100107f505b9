import Palisade.Proofs.Connection.Client
import Palisade.Proofs.Http.SentBack
import Palisade.Proofs.Response.Histories

/-!
# Headers that can be read back

What is written into the headers of a response can be read back by a client, unless somebody gives a
value to the header that says how a body is encoded for the transfer: names are tokens, and values and
cookies keep their lines. Every operation of a handler and every write of an interceptor keeps this.
-/
namespace Palisade

open Palisade.Text ResponseHeaders

/-! ### Cookies -/

namespace Cookie

/-- Name, value and attributes have only characters that are allowed there. -/
structure Clean (c : Cookie) : Prop where
  name : ∀ x ∈ c.name.toList, isNameChar x = true
  value : ∀ x ∈ c.value.toList, isValueChar x = true
  path : ∀ t, c.path = some t → ∀ x ∈ t.toList, isAttributeChar x = true
  domain : ∀ t, c.domain = some t → ∀ x ∈ t.toList, isAttributeChar x = true

/-- A new cookie is clean. -/
theorem clean_of_new {name value : String} {c : Cookie} (h : new name value = .ok c) : c.Clean := by
  obtain ⟨-, hname, hvalue, rfl⟩ := new_eq_ok_iff.1 h
  have hroot : ∀ x ∈ "/".toList, isAttributeChar x = true := List.all_eq_true.1 (by decide)
  refine ⟨hname, hvalue, ?_, ?_⟩
  · intro t ht
    obtain rfl := Option.some.inj ht
    exact hroot
  · intro t ht
    cases ht

/-- A change that is not refused leaves only allowed characters. -/
theorem Clean.change {c changed : Cookie} (hc : c.Clean) {x : Change} (h : c.change x = .ok changed) :
    changed.Clean := by
  cases x with
  | expire =>
    cases h
    exact ⟨hc.name, List.forall_mem_nil _, hc.path, hc.domain⟩
  | path path =>
    simp only [Cookie.change] at h
    split at h
    · rename_i hall
      cases h
      refine ⟨hc.name, hc.value, ?_, hc.domain⟩
      rintro t ⟨⟩
      exact List.all_eq_true.1 hall
    · cases h
  | domain domain =>
    simp only [Cookie.change] at h
    split at h
    · rename_i hall
      cases h
      refine ⟨hc.name, hc.value, hc.path, ?_⟩
      rintro t ⟨⟩
      exact List.all_eq_true.1 (Bool.and_eq_true_iff.1 hall).2
    · cases h
  | _ =>
    cases h
    exact ⟨hc.name, hc.value, hc.path, hc.domain⟩

/-- Changes keep a cookie clean. -/
theorem Clean.changes {c : Cookie} (hc : c.Clean) (xs : List Change) : (c.changes xs).1.Clean := by
  induction xs generalizing c with
  | nil => exact hc
  | cons x rest ih =>
    unfold Cookie.changes
    cases h : c.change x with
    | ok changed => exact ih (hc.change h)
    | error e => exact ih hc

/-- No character of the text is a control or a semicolon. -/
def IsAttribute (text : String) : Prop := ∀ x ∈ text.toList, isAttributeChar x = true

/-- Whether a text may be an attribute is told by its characters. -/
theorem isAttribute_of_all {text : String} (h : text.toList.all isAttributeChar = true) :
    IsAttribute text := List.all_eq_true.1 h

/-- Two attributes in a row may be one. -/
theorem IsAttribute.append {s t : String} (hs : IsAttribute s) (ht : IsAttribute t) :
    IsAttribute (s ++ t) := by
  unfold IsAttribute
  rw [String.toList_append, List.forall_mem_append]
  exact ⟨hs, ht⟩

/-- A text of visible characters of a class without the semicolon. -/
theorem isAttribute_of_chars {allowed : Char → Bool} {text : String}
    (hv : ∀ x, allowed x = true → isVisible x = true) (hs : allowed ';' = false)
    (h : ∀ x ∈ text.toList, allowed x = true) : IsAttribute text := by
  intro x hx
  have hvisible := hv x (h x hx)
  simp only [isVisible, Bool.and_eq_true, decide_eq_true_eq] at hvisible
  have hcontrol : isControl x = false := by
    simp only [isControl, Bool.or_eq_false_iff, decide_eq_false_iff_not, beq_eq_false_iff_ne]
    omega
  rw [isAttributeChar, hcontrol, Bool.not_false, Bool.true_and, bne_iff_ne]
  rintro rfl
  rw [h _ hx] at hs
  cases hs

/-- The digits of a number may be an attribute. -/
theorem isAttribute_showNat (n : Nat) : IsAttribute (showNat n) := by
  have hdigit : ∀ d : Fin 10, isAttributeChar (digitChar d) = true := by decide
  intro x hx
  rw [showNat, String.toList_ofList] at hx
  obtain ⟨d, hd, rfl⟩ := isDigit_of_mem_decimal hx
  exact hdigit ⟨d, hd⟩

/-- So may those of a whole number. -/
theorem isAttribute_showInt (n : Int) : IsAttribute (showInt n) := by
  cases n with
  | ofNat n => exact isAttribute_showNat n
  | negSucc n => exact (isAttribute_of_all (by decide)).append (isAttribute_showNat _)

/-- No part of a clean cookie has a control character or a semicolon. -/
theorem Clean.isAttribute_of_mem {c : Cookie} (hc : c.Clean) : ∀ part ∈ c.parts, IsAttribute part := by
  have hpair : IsAttribute (c.name ++ "=" ++ c.value) := by
    have hname : IsAttribute c.name :=
      isAttribute_of_chars (fun x h => (Bool.and_eq_true_iff.1 h).1) (by decide) hc.name
    have hvalue : IsAttribute c.value :=
      isAttribute_of_chars (fun x h => (Bool.and_eq_true_iff.1 h).1) (by decide) hc.value
    exact (hname.append (isAttribute_of_all (by decide))).append hvalue
  have hlabelled : ∀ {label : String} {text : Option String}, label.toList.all isAttributeChar = true →
      (∀ t, text = some t → IsAttribute t) → ∀ part ∈ (text.map (label ++ ·)).toList,
      IsAttribute part := by
    intro label text hl ha part hp
    obtain ⟨t, ht, rfl⟩ := Option.map_eq_some_iff.1 (Option.mem_toList.1 hp)
    exact (isAttribute_of_all hl).append (ha t ht)
  have hage : ∀ part ∈ (c.maxAge.map fun age => "Max-Age=" ++ showInt age).toList,
      IsAttribute part := by
    intro part hp
    obtain ⟨age, -, rfl⟩ := Option.map_eq_some_iff.1 (Option.mem_toList.1 hp)
    exact (isAttribute_of_all (by decide)).append (isAttribute_showInt age)
  have hflag : ∀ {flag : Bool} {text : String}, text.toList.all isAttributeChar = true →
      ∀ part ∈ (if flag then [text] else []), IsAttribute part := by
    intro flag text ht
    cases flag
    · exact List.forall_mem_nil _
    · exact List.forall_mem_singleton.2 (isAttribute_of_all ht)
  have hsite : IsAttribute ("SameSite=" ++ c.sameSite.name) := by
    refine (isAttribute_of_all (by decide)).append (isAttribute_of_all ?_)
    cases c.sameSite <;> decide
  simp only [parts, List.forall_mem_append, List.forall_mem_singleton]
  exact ⟨⟨⟨⟨⟨⟨hpair, hlabelled (by decide) hc.path⟩, hlabelled (by decide) hc.domain⟩, hage⟩,
    hflag (by decide)⟩, hflag (by decide)⟩, hsite⟩

/-- A clean cookie is written on one line. -/
theorem Clean.breaksLine_display {c : Cookie} (hc : c.Clean) : breaksLine c.display = false :=
  breaksLine_intercalate (by decide) fun part hp =>
    breaksLine_of_chars (by decide) (hc.isAttribute_of_mem part hp)

end Cookie

/-! ### Fields and cookies -/

namespace ResponseHeaders

/-- The fields can be read back, and so can the cookies. -/
structure Readable (h : ResponseHeaders) : Prop where
  fields : h.headers.Readable
  cookies : ∀ c ∈ h.cookies, c.Clean

/-- No headers can be read back. -/
theorem readable_empty : Readable .empty := ⟨List.forall_mem_nil _, List.forall_mem_nil _⟩

variable {h : ResponseHeaders}

/-- Headers with one more clean cookie can be read back. -/
theorem Readable.addCookie (hr : h.Readable) {c : Cookie} (hc : c.Clean) :
    (h.addCookie c).Readable := by
  refine ⟨hr.fields, ?_⟩
  unfold ResponseHeaders.addCookie
  rw [List.forall_mem_append]
  exact ⟨fun d hd => hr.cookies d (List.mem_filter.1 hd).1, List.forall_mem_singleton.2 hc⟩

/-- Giving a name other values keeps fields readable, if the fields of these values are. -/
theorem Readable.insertAll (hr : h.Readable) {name : String} {values : List String}
    (hv : ∀ value ∈ values, Field.Readable ⟨name, value⟩) :
    Readable { h with
      headers := ResponseHeaders.insertAll (h.headers.remove name) name values } :=
  ⟨forall_insertAll (hr.fields.remove name) hv, hr.cookies⟩

/-- All fields that are sent can be read back. -/
theorem Readable.toHeaders (hr : h.Readable) : h.toHeaders.Readable := by
  unfold Headers.Readable ResponseHeaders.toHeaders
  rw [List.forall_mem_append, List.forall_mem_map]
  exact ⟨hr.fields, fun c hc =>
    ⟨(by decide : PlainName cookieName), (hr.cookies c hc).breaksLine_display⟩⟩

end ResponseHeaders

/-! ### Operations of handlers -/

namespace HeaderStep

/-- The operation would give the header a value. -/
def gives : HeaderStep → String → Bool
  | set name _, other | add name _, other => alike name other
  | setClaimed name texts, other => alike name other && !texts.isEmpty
  | _, _ => false

/-- The headers can be read back, and claims are kept under their names, which are tokens. -/
structure Readable (run : HeaderRun) : Prop where
  headers : run.headers.Readable
  kept : ∀ p ∈ run.claims, p.2 = ⟨p.1⟩ ∧ isToken p.1 = true

/-- A run can be read back if what it is rewritten to can. -/
theorem Readable.rewrite {run : HeaderRun} (hr : Readable run) {change : Headers → Headers}
    (hc : (change run.headers.headers).Readable) : Readable (run.rewrite change) :=
  ⟨⟨hc, hr.headers.cookies⟩, hr.kept⟩

/-- Every operation that gives the header of the encoding no value keeps headers readable. -/
theorem Readable.step {run next : HeaderRun} {step : HeaderStep} {outcome : HeaderOutcome}
    (hr : Readable run) (h : Makes run step outcome next)
    (hu : step.gives "Transfer-Encoding" = false) : Readable next := by
  cases h with
  | set valid _ keepsLine =>
    exact hr.rewrite (hr.headers.fields.set ⟨⟨(checkName_eq_ok_iff.1 valid).1, hu⟩, keepsLine⟩)
  | add valid _ keepsLine =>
    exact hr.rewrite (hr.headers.fields.insert ⟨⟨(checkName_eq_ok_iff.1 valid).1, hu⟩, keepsLine⟩)
  | del => exact hr.rewrite (hr.headers.fields.remove _)
  | claim valid =>
    refine ⟨⟨hr.headers.fields, hr.headers.cookies⟩, ?_⟩
    rw [List.forall_mem_cons]
    exact ⟨⟨rfl, (checkName_eq_ok_iff.1 valid).1⟩, hr.kept⟩
  | @fill name c texts kept keepLines =>
    obtain ⟨hc, token⟩ := hr.kept _ (mem_claims_of_lookup kept)
    obtain rfl : c = ⟨name⟩ := hc
    refine ⟨hr.headers.insertAll fun text ht => ?_, hr.kept⟩
    have hkeeps : breaksLine text = false := by simpa using List.any_eq_false.1 keepLines text ht
    have hsome : texts.isEmpty = false := List.isEmpty_eq_false_iff.2 (List.ne_nil_of_mem ht)
    have hother : alike name "Transfer-Encoding" = false := by simpa [gives, hsome] using hu
    exact ⟨⟨token, hother⟩, hkeeps⟩
  | @queue name value changes fresh names results built =>
    have hclean := (Cookie.clean_of_new built).changes changes
    exact ⟨hr.headers.addCookie hclean, hr.kept⟩
  | idle => exact hr

/-- A run of such operations keeps headers readable. -/
theorem Readable.runAll {run : HeaderRun} (hr : Readable run) {steps : List HeaderStep}
    (hu : ∀ step ∈ steps, step.gives "Transfer-Encoding" = false) :
    Readable (HeaderStep.runAll steps run) := by
  induction steps generalizing run with
  | nil => exact hr
  | cons step rest ih =>
    rw [List.forall_mem_cons] at hu
    exact ih (hr.step (makes_run run step) hu.1) hu.2

end HeaderStep

/-- What a handler does to the headers of a response is a run of operations that starts without a
claim and gives the header of the encoding no value. -/
def Handler.Unencoded (handler : Handler) : Prop :=
  ∀ ctx, ∃ steps : List HeaderStep, (∀ step ∈ steps, step.gives "Transfer-Encoding" = false) ∧
    (handler ctx).2.headers = (HeaderStep.runAll steps ⟨ctx.headers, []⟩).headers

/-- What a handler leaves that gives the header of the encoding no value can be read back. -/
theorem Handler.Unencoded.readable {handler : Handler} (hu : handler.Unencoded) {ctx : Context}
    (hr : ctx.headers.Readable) : (handler ctx).2.headers.Readable := by
  obtain ⟨steps, hsteps, he⟩ := hu ctx
  have hstart : HeaderStep.Readable ⟨ctx.headers, []⟩ := ⟨hr, List.forall_mem_nil _⟩
  rw [he]
  exact (hstart.runAll hsteps).headers

/-- A scripted handler without such an operation among its steps. -/
theorem HandlerScript.unencoded_handler (describe : HandlerOutcome → String) {script : HandlerScript}
    (h : ∀ step ∈ headerSteps script.steps, step.gives "Transfer-Encoding" = false) :
    (handler describe script).Unencoded :=
  fun ctx => ⟨headerSteps script.steps, h, headers_handler describe script ctx⟩

/-! ### Writes of interceptors -/

namespace HeaderWrite

/-- What is written with the claim of a plain name can be read back. -/
theorem readable_setClaimed {h h' : ResponseHeaders} (hr : h.Readable) {c : Claim}
    {values : List String} (hn : PlainName c.name) (hs : h.setClaimed c values = .ok h') :
    h'.Readable := by
  obtain ⟨keepLines, rfl⟩ := setClaimed_eq_ok_iff.1 hs
  refine hr.insertAll fun value hv => ⟨hn, ?_⟩
  simpa using List.any_eq_false.1 keepLines value hv

/-- What a write of a plain name leaves can be read back. -/
theorem readable_perform {h : ResponseHeaders} (hr : h.Readable) {w : HeaderWrite}
    (hw : PlainName w.name) : (perform h w).1.Readable := by
  cases w with
  | reserve name =>
    refine orKeep_induction hr fun h' hc => ?_
    cases hclaim : h.claim name with
    | error e => simp [hclaim, Except.map] at hc
    | ok p =>
      obtain ⟨c, claimed⟩ := p
      obtain ⟨-, -, -, rfl⟩ := claim_eq_ok_iff.1 hclaim
      simp only [hclaim, Except.map, Except.ok.injEq] at hc
      subst hc
      exact ⟨hr.fields, hr.cookies⟩
  | own name values =>
    cases hclaim : h.claim name with
    | error e =>
      rw [perform_own_of_refused hclaim]
      exact hr
    | ok p =>
      obtain ⟨c, claimed⟩ := p
      obtain ⟨-, -, rfl, rfl⟩ := claim_eq_ok_iff.1 hclaim
      have hclaimed : ResponseHeaders.Readable { h with claimed := lower name :: h.claimed } :=
        ⟨hr.fields, hr.cookies⟩
      rw [perform_own_of_claim hclaim]
      exact orKeep_induction hclaimed fun h' hs => readable_setClaimed hclaimed hw hs
  | fill c values => exact orKeep_induction hr fun h' hs => readable_setClaimed hr hw hs
  | add name value =>
    refine orKeep_induction hr fun h' ha => ?_
    obtain ⟨-, -, keepsLine, rfl⟩ := write_eq_ok_iff.1 ha
    exact ⟨hr.fields.insert ⟨hw, keepsLine⟩, hr.cookies⟩
  | set name value =>
    refine orKeep_induction hr fun h' hs => ?_
    obtain ⟨-, -, keepsLine, rfl⟩ := write_eq_ok_iff.1 hs
    exact ⟨hr.fields.set ⟨hw, keepsLine⟩, hr.cookies⟩

/-- Writes about such headers keep headers readable, also if one of them is refused. -/
theorem readable_performAll {h : ResponseHeaders} (hr : h.Readable) {ws : List HeaderWrite}
    (hw : ∀ w ∈ ws, PlainName w.name) : (performAll h ws).1.Readable :=
  performAll_induction (P := ResponseHeaders.Readable) (fun w hm _ hr => readable_perform hr (hw w hm)) hr

end HeaderWrite

end Palisade
