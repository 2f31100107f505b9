import Palisade.Proofs.Security.Confinement

/-!
# What the usual interceptors hand to a handler

When a request reaches its handler the interceptors have drawn a nonce, written the content policies with
it, identified the client and issued a token. The main statement says this of the interceptors of the
usual settings, on every route and for every request that they pass on. The invariants are that the
policies of those that ran are the ones that the headers say, and that the clock stands still. Requests
that are answered before the handler are not covered.
-/
namespace Palisade

open Palisade.Text ResponseHeaders

/-! ### The clock -/

namespace Interceptor

/-- Before the handler the interceptor leaves the clock as it is. -/
def KeepsClock (i : Interceptor) : Prop :=
  ∀ configs ctx, (i.before configs ctx).2.world.clock = ctx.world.clock

/-- What follows writes leaves the clock as it is. -/
theorem clock_afterWrites (name : String) (onward : Flow) (p : Context × Option HeaderError) :
    (afterWrites name onward p).2.world.clock = p.1.world.clock := by
  obtain ⟨ctx, error?⟩ := p
  cases error? <;> rfl

/-- So does an interceptor that does nothing but write. -/
theorem keepsClock_ofWrites (name : String) (writes : Configs → List HeaderWrite) :
    (ofWrites name writes).KeepsClock := fun _ _ => clock_afterWrites name .pass _

end Interceptor

/-- The redirect to an encrypted connection does not touch the clock. -/
theorem TransportSecurity.keepsClock (t : TransportSecurity) : t.interceptor.KeepsClock := by
  intro configs ctx
  unfold interceptor
  simp only
  split
  · exact Interceptor.clock_afterWrites name .pass _
  · rfl

/-- The check of metadata does not touch the clock. -/
theorem FetchMetadata.keepsClock (f : FetchMetadata) : f.interceptor.KeepsClock := by
  intro configs ctx
  unfold interceptor
  simp only
  split
  · rfl
  · split
    · rfl
    · split <;> rfl

namespace ContentSecurity

/-- To start with content policies draws random bytes and leaves the clock. -/
theorem clock_start (ctx : Context) : (start ctx).1.world.clock = ctx.world.clock := by
  unfold start
  split
  · rfl
  · simp only
    split
    · rfl
    · split <;> rfl

/-- An interceptor of content policies leaves the clock as it is. -/
theorem keepsClock (policies : List ContentPolicy) : (interceptor policies).KeepsClock := by
  intro configs ctx
  have hs := clock_start ctx
  have ha : (apply policies configs ctx).1.world.clock = ctx.world.clock := by
    unfold apply
    cases hst : start ctx with
    | mk started state =>
      rw [hst] at hs
      cases state <;> exact hs
  exact (Interceptor.clock_afterWrites _ _ _).trans ha

end ContentSecurity

/-- The clock is the same behind interceptors that all leave it. -/
theorem Passed.clock_eq {configs : Configs} {is : List Interceptor} {ctx next : Context}
    (h : Passed configs is ctx next) (hk : ∀ i ∈ is, i.KeepsClock) :
    next.world.clock = ctx.world.clock := by
  induction h with
  | nil => rfl
  | @cons i rest ctx next last first _ ih =>
    rw [List.forall_mem_cons] at hk
    have hr := hk.1 configs ctx
    rw [first] at hr
    exact (ih hk.2).trans hr

/-- The same clock tells the same time. -/
theorem World.millis_eq {w v : World} (h : w.clock = v.clock) : w.millis = v.millis := by
  unfold millis
  rw [h]

/-! ### Content policies -/

namespace ContentSecurity

variable {configs : Configs} {ctx next : Context} {state : PolicyState} {is : List Interceptor}

/-- Nothing is started by interceptors that spare policies. -/
theorem Unstarted.passed (h : Unstarted ctx) (hp : Passed configs is ctx next)
    (hs : ∀ i ∈ is, i.SparesPolicies) : Unstarted next := by
  induction hp with
  | nil => exact h
  | cons first _ ih =>
    rw [List.forall_mem_cons] at hs
    have hnext := h.spared hs.1 configs
    rw [first] at hnext
    exact ih hnext hs.2

/-- What is gathered stays so through interceptors that spare it. -/
theorem Gathered.passed (h : Gathered ctx state) (hp : Passed configs is ctx next)
    (hs : ∀ i ∈ is, i.SparesPolicies) : Gathered next state := by
  induction hp with
  | nil => exact h
  | cons first _ ih =>
    rw [List.forall_mem_cons] at hs
    have hnext := h.spared hs.1 configs
    rw [first] at hnext
    exact ih hnext hs.2

/-- What interceptors of content policies have done that passed the request on. -/
theorem gathered_of_passed {started : Context} {policies : List ContentPolicy}
    {lists : List (List ContentPolicy)} (h : Started ctx started state)
    (hp : Passed configs ((policies :: lists).map interceptor) ctx next) :
    Gathered next (extendAll (policies :: lists) configs state) := by
  induction lists generalizing policies ctx started state with
  | nil =>
    cases hp with
    | cons first others =>
      cases others
      exact (gathered_of_pass h first).1
  | cons others rest ih =>
    cases hp with
    | cons first behind => exact ih (gathered_of_pass h first).1.started behind

end ContentSecurity

/-! ### Clients -/

namespace FormForgery

/-- Whom a request comes from: its cookie says it, or a new cookie that is queued for the response. -/
inductive Identified (request : Request) (h : ResponseHeaders) : String → Prop where
  | kept {value : String} (hc : request.cookie? cookieName = some value) : Identified request h value
  | new {value : String} {cookie : Cookie} (hc : request.cookie? cookieName = none)
      (hn : Cookie.new cookieName value = .ok cookie) (hq : cookie ∈ h.cookies) :
      Identified request h value

/-- A request that is passed on has been issued a token for its client and its host. -/
theorem issued_of_pass {key : TokenKey} {configs : Configs} {ctx last : Context}
    (h : (interceptor key).before configs ctx = (.pass, last)) :
    ∃ client, Identified ctx.request last.headers client ∧
      last.token? = some (Token.issue key client (Host.normalize ctx.request.host) ctx.world.millis) := by
  obtain ⟨client, next, hk, hi⟩ := exists_issue key ctx
  have hpass := issue_of_pass h
  rw [hi, Prod.mk.injEq] at hpass
  obtain ⟨-, rfl⟩ := hpass
  refine ⟨client, ?_, token?_keep _ _⟩
  cases hk with
  | kept hc => exact .kept hc
  | @new cookie hc hn =>
    have hq : cookie ∈ (ctx.headers.addCookie cookie).cookies :=
      List.mem_append_right _ List.mem_cons_self
    exact .new hc hn hq

end FormForgery

/-! ### The usual settings -/

namespace Settings

/-- The interceptors of the usual settings with a key. -/
def usual (key : TokenKey) : List Interceptor :=
  (owners {}).map (·.1) ++ (policyLists {}).map ContentSecurity.interceptor ++
    ((framingOwners {}).map (·.1) ++ metadataInterceptors {}) ++ [FormForgery.interceptor key]

/-- The usual settings give the usual interceptors. -/
theorem interceptors_eq_usual {key : Bytes} {is : List Interceptor}
    (h : interceptors {} key = .ok is) : is = usual ⟨key⟩ := by
  have hbuild : Forgery.build .html key = .ok [FormForgery.interceptor ⟨key⟩] ∨
      ∃ e, Forgery.build .html key = .error e := by
    unfold Forgery.build TokenKey.ofBytes
    cases key.isEmpty with
    | true => exact .inr ⟨_, rfl⟩
    | false => exact .inl rfl
  unfold interceptors at h
  rcases hbuild with hb | ⟨e, hb⟩
  · simp only [hb] at h
    exact (Except.ok.inj h).symm
  · simp only [hb] at h
    cases h

/-- Interceptors that leave alone what those of content policies and of forms work with. -/
structure Aside (is : List Interceptor) : Prop where
  spared : ∀ i ∈ is, i.SparesPolicies
  clock : ∀ i ∈ is, i.KeepsClock
  request : ∀ i ∈ is, i.KeepsRequest

/-- The interceptors in front stand aside. -/
theorem aside_owners : Aside ((owners {}).map (·.1)) := by
  have ho : (owners {}).map (·.1) = [(transportSecurity {}).interceptor, FixedHeaders.interceptor,
      OpenerIsolation.interceptor [{}]] := rfl
  rw [ho]
  constructor
  all_goals rw [List.forall_mem_cons, List.forall_mem_cons, List.forall_mem_singleton]
  · exact ⟨(TransportSecurity.stepwise _).sparesPolicies (TransportSecurity.confined _) (by decide),
      FixedHeaders.stepwise.sparesPolicies FixedHeaders.confined (by decide),
      (OpenerIsolation.stepwise _).sparesPolicies (OpenerIsolation.confined _) (by decide)⟩
  · exact ⟨TransportSecurity.keepsClock _, Interceptor.keepsClock_ofWrites _ _,
      Interceptor.keepsClock_ofWrites _ _⟩
  · exact ⟨(TransportSecurity.stepwise _).keepsRequest, FixedHeaders.stepwise.keepsRequest,
      (OpenerIsolation.stepwise _).keepsRequest⟩

/-- Those behind the content policies stand aside. -/
theorem aside_behind : Aside ((framingOwners {}).map (·.1) ++ metadataInterceptors {}) := by
  have hb : (framingOwners {}).map (·.1) ++ metadataInterceptors {} =
      [Framing.interceptor, FetchMetadata.interceptor {}] := rfl
  rw [hb]
  constructor
  all_goals rw [List.forall_mem_cons, List.forall_mem_singleton]
  · exact ⟨Framing.sparesPolicies,
      (FetchMetadata.stepwise _).sparesPolicies (FetchMetadata.confined _) (List.forall_mem_nil _)⟩
  · exact ⟨Interceptor.keepsClock_ofWrites _ _, FetchMetadata.keepsClock _⟩
  · exact ⟨Framing.stepwise.keepsRequest, (FetchMetadata.stepwise _).keepsRequest⟩

/-- What the usual interceptors have left for a handler: the policies that the headers say, written with
one nonce, and a token for the client and the host, issued at the present time. -/
structure Prepared (key : TokenKey) (request : Request) (world : World) (configs : Configs)
    (ctx : Context) (nonce client : String) : Prop where
  drawn : ∃ bytes, nonce = ContentSecurity.nonceOf bytes
  policies : ContentSecurity.Gathered ctx
    (ContentSecurity.extendAll (policyLists {}) configs (ContentSecurity.fresh nonce))
  identified : FormForgery.Identified request ctx.headers client
  issued : ctx.token? = some (Token.issue key client (Host.normalize request.host) world.millis)

/-- Behind the usual interceptors the handler finds all that is prepared for it. -/
theorem exists_prepared {key : TokenKey} {configs : Configs} {request : Request} {captures : Captures}
    {world : World} {last : Context}
    (h : Passed configs (usual key) (.ofRequest request captures world) last) :
    ∃ nonce client, Prepared key request world configs last nonce client := by
  obtain ⟨before, hfront, hforms⟩ := h.of_append
  obtain ⟨gathered, hfront, hbehind⟩ := hfront.of_append
  obtain ⟨unstarted, hfront, hpolicies⟩ := hfront.of_append
  cases hforms with
  | cons hf hnil =>
    cases hnil
    obtain ⟨started, hstarted, -⟩ :=
      ((ContentSecurity.unstarted_ofRequest request captures world).passed hfront
        aside_owners.spared).started
    have hg := (ContentSecurity.gathered_of_passed hstarted hpolicies).passed hbehind
      aside_behind.spared
    have hforms : (FormForgery.interceptor key).SparesPolicies :=
      (FormForgery.stepwise key).sparesPolicies (FormForgery.confined key) (List.forall_mem_nil _)
    have hlast := hg.spared hforms configs
    rw [hf] at hlast
    obtain ⟨client, hclient, htoken⟩ := FormForgery.issued_of_pass hf
    have hmiddle : ∀ i ∈ (policyLists {}).map ContentSecurity.interceptor,
        i.KeepsRequest ∧ i.KeepsClock := by
      rw [List.forall_mem_map]
      exact fun policies _ =>
        ⟨ContentSecurity.keepsRequest policies, ContentSecurity.keepsClock policies⟩
    have hrequest : before.request = request :=
      (hbehind.request_eq aside_behind.request).trans
        ((hpolicies.request_eq fun i hi => (hmiddle i hi).1).trans
          (hfront.request_eq aside_owners.request))
    have hclock : before.world.clock = world.clock :=
      (hbehind.clock_eq aside_behind.clock).trans
        ((hpolicies.clock_eq fun i hi => (hmiddle i hi).2).trans
          (hfront.clock_eq aside_owners.clock))
    rw [hrequest] at hclient htoken
    rw [World.millis_eq hclock] at htoken
    exact ⟨_, client, ⟨_, rfl⟩, hlast, hclient, htoken⟩

end Settings

end Palisade
