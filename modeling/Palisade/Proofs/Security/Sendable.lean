import Palisade.Proofs.Security.Conflicts
import Palisade.Proofs.Security.Readable

/-!
# Fields that can be sent

Nothing that interceptors and handlers may do to the headers of a response brings in a field that cannot
be sent: each write is checked, and claims are of names that were checked. So it is kept along the whole
run of a request, whatever headers are written and however they are spelled, and the encoding adds names
that are tokens. The interceptor of content policies is looked at by itself, because it writes with claims
that another may have made.
-/
namespace Palisade

open Palisade.Text ResponseHeaders

/-! ### Operations and writes -/

/-- Operations that start without a claim keep the fields of headers such that they can be sent. -/
theorem HeaderStep.sendable_runAll {h : ResponseHeaders} (hs : h.headers.Sendable)
    (steps : List HeaderStep) : (runAll steps ⟨h, []⟩).headers.headers.Sendable := by
  have hstart : Orderly ⟨h, []⟩ := ⟨hs, List.forall_mem_nil _, .nil⟩
  exact (hstart.runAll steps).sendable

/-- A header that is claimed under a proper name can be sent. -/
theorem ResponseHeaders.sendable_setClaimed {h h' : ResponseHeaders} {c : Claim} {values : List String}
    (hs : h.headers.Sendable) (hc : checkName c.name = .ok ()) (hw : h.setClaimed c values = .ok h') :
    h'.headers.Sendable := by
  obtain ⟨keepLines, rfl⟩ := setClaimed_eq_ok_iff.1 hw
  exact sendable_insertAll (hs.remove _) hc keepLines

namespace HeaderWrite

/-- If the write uses a claim that was made before then it is of a name that can be written. -/
def Licensed : HeaderWrite → Prop
  | fill c _ => checkName c.name = .ok ()
  | _ => True

/-- A write that needs no claim is licensed by its own name. -/
theorem Free.licensed {w : HeaderWrite} (hw : w.Free) : w.Licensed := by
  cases w with
  | fill c values => exact hw.elim
  | _ => trivial

variable {h : ResponseHeaders}

/-- A licensed write leaves headers that can be sent. -/
theorem sendable_perform (hs : h.headers.Sendable) {w : HeaderWrite} (hw : w.Licensed) :
    (perform h w).1.headers.Sendable := by
  cases w with
  | reserve name =>
    refine orKeep_induction (P := fun h' => h'.headers.Sendable) hs fun h' hc => ?_
    cases hclaim : h.claim name with
    | error e => simp [hclaim, Except.map] at hc
    | ok p =>
      obtain ⟨c, claimed⟩ := p
      obtain ⟨-, -, -, rfl⟩ := claim_eq_ok_iff.1 hclaim
      simp only [hclaim, Except.map, Except.ok.injEq] at hc
      subst hc
      exact hs
  | own name values =>
    cases hclaim : h.claim name with
    | error e =>
      rw [perform_own_of_refused hclaim]
      exact hs
    | ok p =>
      obtain ⟨c, claimed⟩ := p
      obtain ⟨valid, -, rfl, rfl⟩ := claim_eq_ok_iff.1 hclaim
      have hclaimed : (ResponseHeaders.mk h.headers (lower name :: h.claimed) h.cookies).headers.Sendable :=
        hs
      rw [perform_own_of_claim hclaim]
      exact orKeep_induction (P := fun h' => h'.headers.Sendable) hclaimed fun h' hset =>
        sendable_setClaimed hclaimed valid hset
  | fill c values =>
    exact orKeep_induction (P := fun h' => h'.headers.Sendable) hs fun h' hset =>
      sendable_setClaimed hs hw hset
  | add name value =>
    refine orKeep_induction (P := fun h' => h'.headers.Sendable) hs fun h' ha => ?_
    obtain ⟨valid, -, keepsLine, rfl⟩ := write_eq_ok_iff.1 ha
    exact hs.insert (.of_check valid keepsLine)
  | set name value =>
    refine orKeep_induction (P := fun h' => h'.headers.Sendable) hs fun h' hset => ?_
    obtain ⟨valid, -, keepsLine, rfl⟩ := write_eq_ok_iff.1 hset
    exact hs.set (.of_check valid keepsLine)

/-- Licensed writes bring in no field that cannot be sent, also if one of them is refused. -/
theorem sendable_performAll (hs : h.headers.Sendable) {ws : List HeaderWrite}
    (hw : ∀ w ∈ ws, w.Licensed) : (performAll h ws).1.headers.Sendable :=
  performAll_induction (P := fun h' => h'.headers.Sendable)
    (fun w hm _ hs => sendable_perform hs (hw w hm)) hs

end HeaderWrite

/-! ### Interceptors -/

/-- The fields can be sent, and the claims that are kept for content policies are of names that can be
written. -/
structure Context.Sendable (ctx : Context) : Prop where
  fields : ctx.headers.headers.Sendable
  claims : ∀ state, ctx.extensions.get? .policies = some state →
    checkName state.enforce.name = .ok () ∧ checkName state.report.name = .ok ()

namespace Context

/-- A fresh context can be sent. -/
theorem sendable_ofRequest (request : Request) (captures : Captures) (world : World) :
    (ofRequest request captures world).Sendable := by
  refine ⟨Headers.sendable_empty, ?_⟩
  intro state hs
  cases hs

variable {ctx next : Context}

/-- An event changes no header. -/
theorem Sendable.record (hc : ctx.Sendable) (e : Event) : (ctx.record e).Sendable :=
  ⟨hc.fields, hc.claims⟩

/-- Licensed writes leave headers that can be sent. -/
theorem Sendable.perform (hc : ctx.Sendable) {ws : List HeaderWrite} (hw : ∀ w ∈ ws, w.Licensed) :
    (ctx.perform ws).1.Sendable :=
  ⟨HeaderWrite.sendable_performAll hc.fields hw, hc.claims⟩

/-- Steps on headers leave headers that can be sent. -/
theorem Reaches.sendable (h : Reaches ctx next) (hc : ctx.Sendable) : next.Sendable := by
  induction h with
  | start => exact hc
  | pass _ _ ih => exact ⟨ih.fields, ih.claims⟩
  | write _ hw ih => exact ih.perform fun w hm => (hw w hm).1.licensed
  | cookie _ _ ih => exact ⟨ih.fields, ih.claims⟩
  | token _ token ih =>
    exact ⟨ih.fields, fun state hs => ih.claims state ((policies_keep_token _ token).symm.trans hs)⟩

end Context

namespace Interceptor

/-- The interceptor brings in no field that cannot be sent. -/
structure KeepsSendable (i : Interceptor) : Prop where
  before : ∀ configs ctx, ctx.Sendable → (i.before configs ctx).2.Sendable
  commit : ∀ configs response ctx, ctx.headers.headers.Sendable →
    (i.commit configs response ctx).2.headers.headers.Sendable

/-- What the interceptor does to headers, before the handler and behind it, are operations that start
without a claim, and it leaves the content policies that are kept. -/
structure Operates (i : Interceptor) : Prop where
  before : ∀ configs ctx, ∃ steps : List HeaderStep,
    (i.before configs ctx).2.headers = (HeaderStep.runAll steps ⟨ctx.headers, []⟩).headers
  policies : ∀ configs ctx,
    (i.before configs ctx).2.extensions.get? .policies = ctx.extensions.get? .policies
  commit : ∀ configs response ctx, ∃ steps : List HeaderStep,
    (i.commit configs response ctx).2.headers = (HeaderStep.runAll steps ⟨ctx.headers, []⟩).headers

variable {i : Interceptor}

/-- Operations on headers keep what can be sent. -/
theorem Operates.keepsSendable (ho : i.Operates) : i.KeepsSendable where
  before configs ctx hc := by
    obtain ⟨steps, he⟩ := ho.before configs ctx
    refine ⟨he ▸ HeaderStep.sendable_runAll hc.fields steps, fun state hs => hc.claims state ?_⟩
    rwa [ho.policies] at hs
  commit configs response ctx hs := by
    obtain ⟨steps, he⟩ := ho.commit configs response ctx
    exact he ▸ HeaderStep.sendable_runAll hs steps

/-- Steps on headers keep what can be sent. -/
theorem Stepwise.keepsSendable (h : i.Stepwise) : i.KeepsSendable where
  before configs ctx hc := (h.before configs ctx).sendable hc
  commit configs response ctx hs := by
    rw [h.commit]
    exact hs

end Interceptor

namespace RecorderScript

/-- What an interceptor of a script does to headers leaves what is kept. -/
theorem extensions_runSteps (name : String) (describe : HandlerOutcome → String)
    (steps : List HeaderStep) (ctx : Context) (claims : List (String × Claim)) :
    (runSteps name describe steps ctx claims).extensions = ctx.extensions := by
  induction steps generalizing ctx claims with
  | nil => rfl
  | cons step rest ih =>
    simp only [runSteps, ih]
    rfl

/-- A scripted interceptor does its operations. -/
theorem operates (r : RecorderScript) (describe : HandlerOutcome → String) :
    (r.interceptor describe).Operates where
  before configs ctx := ⟨r.before, (r.before_eq describe configs ctx).1⟩
  policies configs ctx := by
    simp only [interceptor, runBefore]
    split
    · rw [extensions_runSteps]
      rfl
    · split <;>
        · simp only [Context.write, extensions_runSteps]
  commit configs response ctx := by
    refine ⟨r.commit, ?_⟩
    simp only [interceptor, runCommit]
    split <;> exact headers_runSteps _ _ _ _ _

end RecorderScript

namespace ContentSecurity

/-- The claims that an interceptor of content policies starts with are of names that can be written. -/
theorem sendable_start {ctx : Context} (hc : ctx.Sendable) :
    (start ctx).1.Sendable ∧ ∀ state, (start ctx).2 = .ok state →
      checkName state.enforce.name = .ok () ∧ checkName state.report.name = .ok () := by
  unfold start
  split
  · rename_i state hs
    refine ⟨hc, ?_⟩
    rintro _ ⟨⟩
    exact hc.claims state hs
  · simp only
    split
    · refine ⟨⟨hc.fields, hc.claims⟩, ?_⟩
      rintro _ ⟨⟩
    · rename_i enforce claimed he
      obtain ⟨henforce, -, rfl, rfl⟩ := claim_eq_ok_iff.1 he
      split
      · refine ⟨⟨hc.fields, hc.claims⟩, ?_⟩
        rintro _ ⟨⟩
      · rename_i report both hr
        obtain ⟨hreport, -, rfl, rfl⟩ := claim_eq_ok_iff.1 hr
        refine ⟨⟨hc.fields, hc.claims⟩, ?_⟩
        rintro _ ⟨⟩
        exact ⟨henforce, hreport⟩

/-- Policies are applied with a right to write their headers. -/
theorem sendable_apply (policies : List ContentPolicy) (configs : Configs) {ctx : Context}
    (hc : ctx.Sendable) : (apply policies configs ctx).1.Sendable := by
  obtain ⟨hstarted, hclaims⟩ := sendable_start hc
  unfold apply
  cases hs : start ctx with
  | mk started result =>
    rw [hs] at hstarted hclaims
    cases result with
    | error e => exact hstarted
    | ok state =>
      obtain ⟨henforce, hreport⟩ := hclaims state rfl
      obtain ⟨he, hr⟩ := claims_extend policies configs state
      rw [← he] at henforce
      rw [← hr] at hreport
      have hw : ∀ w ∈ [HeaderWrite.fill (extend policies configs state).enforce
            (extend policies configs state).enforced,
          .fill (extend policies configs state).report (extend policies configs state).reported],
          w.Licensed := List.forall_mem_cons.2 ⟨henforce, List.forall_mem_singleton.2 hreport⟩
      refine ⟨(hstarted.perform hw).fields, ?_⟩
      intro kept hk
      simp only [Context.keep, Extensions.get?_insert_self, Option.some.injEq] at hk
      subst hk
      exact ⟨henforce, hreport⟩

/-- An interceptor of content policies keeps what can be sent. -/
theorem keepsSendable (policies : List ContentPolicy) : (interceptor policies).KeepsSendable where
  before configs _ hc :=
    Interceptor.afterWrites_induction (fun _ e hc => hc.record e) (sendable_apply policies configs hc)
  commit _ _ _ hs := hs

end ContentSecurity

/-- Whatever the settings are, their interceptors bring in no field that cannot be sent. -/
theorem Settings.keepsSendable {s : Settings} {key : Bytes} {is : List Interceptor}
    (h : s.interceptors key = .ok is) : ∀ i ∈ is, i.KeepsSendable := by
  intro i hi
  rcases interceptors_cases h i hi with hs | ⟨policies, rfl⟩
  · exact hs.keepsSendable
  · exact ContentSecurity.keepsSendable policies

/-! ### The run of a request -/

/-- The handler brings in no field that cannot be sent. -/
def Handler.KeepsSendable (handler : Handler) : Prop :=
  ∀ ctx, ctx.Sendable → (handler ctx).2.headers.headers.Sendable

/-- A handler that works on headers with operations brings in no such field. -/
theorem Handler.Operates.keepsSendable {handler : Handler} (ho : handler.Operates) :
    handler.KeepsSendable := by
  intro ctx hc
  obtain ⟨steps, he⟩ := ho ctx
  rw [he]
  exact HeaderStep.sendable_runAll hc.fields steps

/-- The answer of a target can be sent if its handler brings in no field that cannot be. -/
theorem Target.Runs.sendable {target : Target} (ho : target.Runs Handler.KeepsSendable)
    {ctx : Context} (hc : ctx.Sendable) : (target.answer ctx).2.headers.headers.Sendable := by
  cases target with
  | route r captures => exact ho ctx hc
  | methodNotAllowed | notFound => exact hc.fields

/-- What a run leaves can be sent. -/
theorem Target.sendable_run {target : Target} (ho : target.Runs Handler.KeepsSendable)
    {is : List Interceptor} (hi : ∀ i ∈ is, i.KeepsSendable) {ctx : Context} (hc : ctx.Sendable) :
    (target.run is ctx).2.headers.headers.Sendable := by
  have hfollow : (Passage.follow target.configs [] ctx is).context.Sendable :=
    Passage.follow_induction (fun i hm ctx hc => (hi i hm).before target.configs ctx hc)
      (fun _ e hc => hc.record e) [] hc
  have hwritten :
      ((Passage.follow target.configs [] ctx is).written target).2.headers.headers.Sendable := by
    unfold Passage.written
    split
    · exact hfollow.fields
    · exact ho.sendable hfollow
  refine Passage.finish_induction (P := fun next => next.headers.headers.Sendable) ?_ _ hwritten
  intro i hm response ctx hs
  rcases Passage.mem_of_mem_ran hm with hm | hm
  · exact absurd hm List.not_mem_nil
  · exact (hi i hm).commit target.configs response ctx hs

namespace Service

/-- The encoding writes under proper names. -/
theorem isToken_of_mem_settle (rendering : Rendering) {headers : Headers}
    (hs : ∀ f ∈ headers.fields, isToken f.name = true) :
    ∀ f ∈ (settle rendering headers).fields, isToken f.name = true := by
  have hset : ∀ {name : String} {headers : Headers} (value : String), isToken name = true →
      (∀ f ∈ headers.fields, isToken f.name = true) →
      ∀ f ∈ (headers.set name value).fields, isToken f.name = true :=
    fun value hname hs => Headers.forall_set hs hname fun _ hf => hf
  unfold settle
  cases rendering.contentType <;> cases rendering.location
  · exact Headers.forall_remove hs _
  · exact hset _ (by decide) (Headers.forall_remove hs _)
  · exact hset _ (by decide) hs
  · exact hset _ (by decide) (hset _ (by decide) hs)

/-- The names of all fields of a reply are tokens, whatever renders the response. -/
theorem isToken_of_mem_serve {s : Service} (hi : ∀ i ∈ s.interceptors, i.KeepsSendable)
    (ho : ∀ r ∈ s.routes, r.handler.KeepsSendable) (request : Request) (world : World) :
    ∀ f ∈ (s.serve request world).1.headers.fields, isToken f.name = true := by
  have hrun := Target.sendable_run (Target.runs_lookup ho request) hi
    (Context.sendable_ofRequest request (Target.lookup s.routes request).captures world)
  refine isToken_of_mem_settle _ ?_
  unfold toHeaders
  rw [List.forall_mem_append, List.forall_mem_map]
  exact ⟨fun f hf => (hrun f hf).token, fun _ _ => (by decide : isToken cookieName = true)⟩

end Service

end Palisade
