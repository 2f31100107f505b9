import Palisade.Proofs.Response.Operations
import Palisade.Script.Handler

/-!
# What a claim protects

A name is pinned when it is claimed and has exactly the fields of some values. Interceptors pin names
with writes that claim them; handlers work on headers with operations of any kind and with the claims
that these give them. A handler without the claim of a pinned name leaves it pinned, in whatever order
it works. A claim is known by its name alone; those of other maps are not covered.
-/
namespace Palisade

open Palisade.Text

namespace ResponseHeaders

/-- The name is claimed, and its fields are those of the values. -/
structure Pinned (h : ResponseHeaders) (name : String) (values : List String) : Prop where
  isClaimed : h.isClaimed name = true
  fieldsOf : h.headers.fieldsOf name = Headers.fieldsFor name values

/-- What stays as it is stays pinned. -/
theorem Pinned.of_same {h h' : ResponseHeaders} {name : String} {values : List String}
    (hp : Pinned h name values) (hs : SameAt h h' name) : Pinned h' name values where
  isClaimed := hs.isClaimed_eq.trans hp.isClaimed
  fieldsOf := hs.fieldsOf_eq.trans hp.fieldsOf

end ResponseHeaders

open ResponseHeaders

/-! ### Writes that claim -/

/-- A header with the values that it shall have. -/
structure Pin where
  /-- The header. -/
  name : String
  /-- The values, in order. -/
  values : List String

namespace Pin

/-- The name can be claimed, and the values keep their lines. -/
structure Valid (p : Pin) : Prop where
  name : checkName p.name = .ok ()
  values : p.values.any breaksLine = false

/-- Other headers than the one of a name. -/
def Other (pins : List Pin) (name : String) : Prop := ∀ p ∈ pins, alike p.name name = false

/-- No header twice. -/
def Distinct (pins : List Pin) : Prop := pins.Pairwise fun p q => alike p.name q.name = false

/-- The writes that claim headers and give them their values. -/
def writes (pins : List Pin) : List HeaderWrite := pins.map fun p => .own p.name p.values

/-- Headers are as the pins say. -/
def Hold (pins : List Pin) (h : ResponseHeaders) : Prop := ∀ p ∈ pins, Pinned h p.name p.values

/-- Pins hold as long as their names stay as they are. -/
theorem Hold.of_same {pins : List Pin} {h h' : ResponseHeaders} (hp : Hold pins h)
    (hs : ∀ p ∈ pins, SameAt h h' p.name) : Hold pins h' :=
  fun p hm => (hp p hm).of_same (hs p hm)

end Pin

namespace HeaderWrite

/-- Claiming a header that is not claimed and giving it values. -/
theorem perform_own {h : ResponseHeaders} {p : Pin} (hv : p.Valid)
    (hf : h.isClaimed p.name = false) :
    ∃ h', perform h (.own p.name p.values) = (h', none) ∧ Pinned h' p.name p.values := by
  have hc : h.claim p.name =
      .ok (⟨p.name⟩, { h with claimed := lower p.name :: h.claimed }) :=
    claim_eq_ok_iff.2 ⟨hv.name, hf, rfl, rfl⟩
  obtain ⟨h', hs⟩ : ∃ h', ResponseHeaders.setClaimed { h with claimed := lower p.name :: h.claimed }
      ⟨p.name⟩ p.values = .ok h' := ⟨_, setClaimed_eq_ok_iff.2 ⟨hv.values, rfl⟩⟩
  refine ⟨h', ?_, ?_, fieldsOf_setClaimed hs (alike_refl p.name)⟩
  · rw [perform_own_of_claim hc, hs]
    rfl
  · obtain ⟨-, rfl⟩ := setClaimed_eq_ok_iff.1 hs
    have hcl := isClaimed_cons h p.name p.name
    rwa [alike_refl, Bool.true_or] at hcl

/-- Claiming a header and giving it values pins it, or is refused and leaves all fields as they were. -/
theorem perform_own_cases (h : ResponseHeaders) (name : String) (values : List String) :
    (∃ h', perform h (.own name values) = (h', none) ∧ h.isClaimed name = false ∧
      values.any breaksLine = false ∧ Pinned h' name values) ∨
    ∃ h' e, perform h (.own name values) = (h', some e) ∧ h'.headers = h.headers := by
  cases hc : h.claim name with
  | error e => exact .inr ⟨h, e, perform_own_of_refused hc values, rfl⟩
  | ok p =>
    obtain ⟨c, claimed⟩ := p
    rw [perform_own_of_claim hc]
    obtain ⟨-, hf, rfl, hclaimed⟩ := claim_eq_ok_iff.1 hc
    rcases orKeep_cases claimed (claimed.setClaimed ⟨name⟩ values) with ⟨h', hs, he⟩ | ⟨e, -, he⟩
    · obtain ⟨hv, rfl⟩ := setClaimed_eq_ok_iff.1 hs
      have hheld : claimed.isClaimed name = true := by
        have hcons := isClaimed_cons h name name
        rwa [alike_refl, Bool.true_or, ← hclaimed] at hcons
      exact .inl ⟨_, he, hf, hv, hheld, fieldsOf_setClaimed hs (alike_refl name)⟩
    · exact .inr ⟨claimed, e, he, by rw [hclaimed]⟩

/-- Claiming a header first and giving it values, and then writing other headers. If this is not refused,
or as soon as the values are there, the header is pinned. Otherwise its fields are those that it had. -/
theorem performAll_own (h : ResponseHeaders) {name : String} (values : List String)
    {rest : List HeaderWrite} (hr : ∀ w ∈ rest, alike w.name name = false) :
    (values.any breaksLine = false ∧ Pinned (performAll h (.own name values :: rest)).1 name values) ∨
      (performAll h (.own name values :: rest)).2 ≠ none ∧
        (performAll h (.own name values :: rest)).1.headers.fieldsOf name = h.headers.fieldsOf name := by
  rcases perform_own_cases h name values with ⟨h', hp, -, hv, hpinned⟩ | ⟨h', e, hp, hsame⟩
  · rw [performAll, hp]
    exact .inl ⟨hv, hpinned.of_same (sameAt_performAll h' rest fun w hw => .inl (hr w hw))⟩
  · rw [performAll, hp]
    exact .inr ⟨by simp, congrArg (Headers.fieldsOf · name) hsame⟩

/-- Writing pins leaves other names. -/
theorem sameAt_writes (h : ResponseHeaders) {pins : List Pin} {other : String}
    (hn : Pin.Other pins other) : SameAt h (performAll h (Pin.writes pins)).1 other := by
  apply sameAt_performAll
  intro w hm
  obtain ⟨p, hp, rfl⟩ := List.mem_map.1 hm
  exact .inl (hn p hp)

/-- Claiming headers that are not claimed and giving them values. -/
theorem performAll_writes {pins : List Pin} {h : ResponseHeaders} (hv : ∀ p ∈ pins, p.Valid)
    (hd : Pin.Distinct pins) (hf : ∀ p ∈ pins, h.isClaimed p.name = false) :
    ∃ h', performAll h (Pin.writes pins) = (h', none) ∧ Pin.Hold pins h' := by
  induction pins generalizing h with
  | nil => exact ⟨h, rfl, by simp [Pin.Hold]⟩
  | cons p rest ih =>
    rw [List.forall_mem_cons] at hv hf
    obtain ⟨hother, hd⟩ := List.pairwise_cons.1 hd
    obtain ⟨h₁, hw, hp⟩ := perform_own hv.1 hf.1
    have hsame : ∀ q ∈ rest, SameAt h h₁ q.name := by
      intro q hq
      have hs := sameAt_perform h (.own p.name p.values) (.inl (hother q hq))
      rwa [hw] at hs
    obtain ⟨h₂, hws, hps⟩ := ih hv.2 hd fun q hq => (hsame q hq).isClaimed_eq.trans (hf.2 q hq)
    have hlast : SameAt h₁ h₂ p.name := by
      have hn : Pin.Other rest p.name := by
        intro q hq
        rw [alike_comm]
        exact hother q hq
      have hs := sameAt_writes h₁ hn
      rwa [hws] at hs
    refine ⟨h₂, ?_, ?_⟩
    · rw [Pin.writes, List.map_cons, performAll, hw]
      exact hws
    · unfold Pin.Hold
      rw [List.forall_mem_cons]
      exact ⟨hp.of_same hlast, hps⟩

end HeaderWrite

/-! ### Operations of handlers -/

namespace HeaderStep

/-- What an operation does to a run, if it does anything. -/
inductive Effect (run : HeaderRun) : HeaderRun → Prop where
  /-- It is refused, or only looks. -/
  | nothing : Effect run run
  /-- It writes a name freely. -/
  | write {name value : String} {change : Headers → Headers} {h : ResponseHeaders}
      (written : run.headers.write name value change = .ok h) (narrow : Local name change) :
      Effect run { run with headers := h }
  /-- It claims a name and keeps the claim. -/
  | claim {name : String} {c : Claim} {h : ResponseHeaders}
      (claimed : run.headers.claim name = .ok (c, h)) : Effect run ⟨h, (name, c) :: run.claims⟩
  /-- It writes with a claim that is kept. -/
  | fill {name : String} {c : Claim} {values : List String} {h : ResponseHeaders}
      (kept : (name, c) ∈ run.claims) (written : run.headers.setClaimed c values = .ok h) :
      Effect run { run with headers := h }
  /-- It queues a cookie. -/
  | cookie (cookie : Cookie) : Effect run { run with headers := run.headers.addCookie cookie }

/-- A claim that is found under a name is kept there. -/
theorem mem_claims_of_lookup {run : HeaderRun} {name : String} {c : Claim}
    (h : run.claims.lookup name = some c) : (name, c) ∈ run.claims := by
  obtain ⟨newer, older, he, -⟩ := List.lookup_eq_some_iff.1 h
  rw [he]
  exact List.mem_append_right newer List.mem_cons_self

/-- An operation that is tried has the effect that it has if it succeeds. -/
theorem effect_attempt {run : HeaderRun} {result : Except HeaderError ResponseHeaders}
    (hk : ∀ h, result = .ok h → Effect run { run with headers := h }) :
    Effect run (attempt run result).2 := by
  cases result with
  | error e => exact .nothing
  | ok h => exact hk h rfl

/-- The effect of one operation. -/
theorem effect_run (run : HeaderRun) (step : HeaderStep) : Effect run (step.run run).2 := by
  cases step with
  | set name value => exact effect_attempt fun h hw => .write hw (local_set name value)
  | add name value => exact effect_attempt fun h hw => .write hw (local_insert name value)
  | del name => exact effect_attempt fun h hw => .write hw (local_remove name)
  | get name => exact .nothing
  | values name => exact .nothing
  | isClaimed name => exact .nothing
  | claim name =>
    cases hc : run.headers.claim name with
    | error e =>
      simp only [HeaderStep.run, hc]
      exact .nothing
    | ok p =>
      simp only [HeaderStep.run, hc]
      exact .claim hc
  | setClaimed name texts =>
    cases hl : run.claims.lookup name with
    | none =>
      simp only [HeaderStep.run, hl]
      exact .nothing
    | some c =>
      simp only [HeaderStep.run, hl]
      exact effect_attempt fun h hw => .fill (mem_claims_of_lookup hl) hw
  | cookie name value changes =>
    cases hc : Cookie.new name value with
    | error e =>
      simp only [HeaderStep.run, hc]
      exact .nothing
    | ok fresh =>
      simp only [HeaderStep.run, hc]
      exact .cookie (fresh.changes changes).1

/-- Makes operations one after the other. -/
def runAll (steps : List HeaderStep) (start : HeaderRun) : HeaderRun :=
  steps.foldl (fun run step => (step.run run).2) start

/-- The name is claimed, and the claim is not among those that the run has. -/
structure Guarded (run : HeaderRun) (name : String) : Prop where
  isClaimed : run.headers.isClaimed name = true
  foreign : ∀ p ∈ run.claims, alike p.2.name name = false

/-- A name stays guarded as long as it stays as it is. -/
theorem Guarded.of_same {run : HeaderRun} {name : String} (hg : Guarded run name)
    {h : ResponseHeaders} (hs : SameAt run.headers h name) :
    Guarded { run with headers := h } name ∧ SameAt run.headers h name :=
  ⟨⟨hs.isClaimed_eq.trans hg.isClaimed, hg.foreign⟩, hs⟩

/-- No operation touches a guarded name, and none gives its claim away. -/
theorem Guarded.step {run run' : HeaderRun} {name : String} (hg : Guarded run name)
    (he : Effect run run') : Guarded run' name ∧ SameAt run.headers run'.headers name := by
  cases he with
  | nothing => exact ⟨hg, .refl _ _⟩
  | write written narrow => exact hg.of_same (sameAt_write written narrow (.inr hg.isClaimed))
  | claim claimed =>
    have hs := sameAt_claim claimed (.inr hg.isClaimed)
    obtain ⟨-, hf, rfl, -⟩ := claim_eq_ok_iff.1 claimed
    refine ⟨⟨hs.isClaimed_eq.trans hg.isClaimed, ?_⟩, hs⟩
    rw [List.forall_mem_cons]
    exact ⟨not_alike_of_isClaimed hf hg.isClaimed, hg.foreign⟩
  | fill kept written =>
    have hn := hg.foreign _ kept
    exact hg.of_same (sameAt_setClaimed written hn)
  | cookie cookie => exact hg.of_same (sameAt_addCookie run.headers cookie name)

/-- No run of operations touches a guarded name. -/
theorem Guarded.runAll {run : HeaderRun} {name : String} (hg : Guarded run name)
    (steps : List HeaderStep) :
    Guarded (runAll steps run) name ∧ SameAt run.headers (HeaderStep.runAll steps run).headers name := by
  induction steps generalizing run with
  | nil => exact ⟨hg, .refl _ _⟩
  | cons step rest ih =>
    obtain ⟨hg₁, hs₁⟩ := hg.step (effect_run run step)
    obtain ⟨hg₂, hs₂⟩ := ih hg₁
    exact ⟨hg₂, hs₁.trans hs₂⟩

/-- Whoever starts without claims leaves every claimed name as it was. -/
theorem respects_runAll (h : ResponseHeaders) (steps : List HeaderStep) :
    Respects h (runAll steps ⟨h, []⟩).headers := by
  intro name hc
  have hg : Guarded ⟨h, []⟩ name := ⟨hc, List.forall_mem_nil _⟩
  exact (hg.runAll steps).2

end HeaderStep

/-- What a handler does to the headers of a response is a run of operations that starts without a
claim. -/
def Handler.Operates (handler : Handler) : Prop :=
  ∀ ctx, ∃ steps : List HeaderStep,
    (handler ctx).2.headers = (HeaderStep.runAll steps ⟨ctx.headers, []⟩).headers

namespace HandlerScript

/-- The operations on headers among the steps of a handler. -/
def headerSteps (steps : List HandlerStep) : List HeaderStep :=
  steps.filterMap fun | .header step => some step | _ => none

/-- The headers that steps leave are those of the operations among them. -/
theorem headers_runSteps (describe : HandlerOutcome → String) (steps : List HandlerStep)
    (ctx : Context) (claims : List (String × Claim)) :
    (runSteps describe steps ctx claims).headers =
      (HeaderStep.runAll (headerSteps steps) ⟨ctx.headers, claims⟩).headers := by
  induction steps generalizing ctx claims with
  | nil => rfl
  | cons step rest ih =>
    cases step with
    | header step =>
      simp only [runSteps, HandlerStep.run, ih]
      rfl
    | _ => simp only [runSteps, HandlerStep.run, ih, Context.write, headerSteps, List.filterMap_cons]

/-- Answering leaves the headers. -/
theorem headers_respond (describe : HandlerOutcome → String) (ctx : Context)
    (answer : HandlerAnswer) : (respond describe ctx answer).2.headers = ctx.headers := by
  cases answer with
  | plan plan => cases hb : plan.build <;> simp only [respond, hb, Context.write]
  | _ => rfl

/-- What a scripted handler does to headers are the operations among its steps. -/
theorem headers_handler (describe : HandlerOutcome → String) (script : HandlerScript)
    (ctx : Context) :
    (handler describe script ctx).2.headers =
      (HeaderStep.runAll (headerSteps script.steps) ⟨ctx.headers, []⟩).headers := by
  have hr := headers_respond describe (runSteps describe script.steps ctx []) script.answer
  have hs := headers_runSteps describe script.steps ctx []
  simp only [handler, Context.write, hr, hs]

/-- A scripted handler works on headers with operations alone. -/
theorem operates_handler (describe : HandlerOutcome → String) (script : HandlerScript) :
    (handler describe script).Operates :=
  fun ctx => ⟨headerSteps script.steps, headers_handler describe script ctx⟩

end HandlerScript

end Palisade
