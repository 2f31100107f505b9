import Palisade.Proofs.Security.Stack
import Palisade.Proofs.Service.Handlers

/-!
# Admission of requests that may change something

A service that protects its forms hands a request that may change something to a handler only if the
request has a cookie and a form with a token that is signed for the cookie and the host. Otherwise the
request is refused with the status of what is missing, and the refusal leaves nothing in the response
and draws nothing. The protection may stand anywhere among other interceptors. It looks at the request
that those in front of it pass on, which for those of the library is the request that was received.
-/
namespace Palisade

/-! ### The interceptors of the library keep the request -/

/-- What follows writes leaves the request as it is. -/
theorem Interceptor.request_afterWrites (name : String) (onward : Flow)
    (p : Context × Option HeaderError) :
    (afterWrites name onward p).2.request = p.1.request := by
  obtain ⟨ctx, error?⟩ := p
  cases error? <;> rfl

namespace ContentSecurity

/-- To start with content policies leaves the request as it is. -/
theorem request_start (ctx : Context) : (start ctx).1.request = ctx.request := by
  unfold start
  split
  · rfl
  · simp only
    split
    · rfl
    · split <;> rfl

/-- An interceptor of content policies leaves the request as it is. -/
theorem keepsRequest (policies : List ContentPolicy) : (interceptor policies).KeepsRequest := by
  intro configs ctx
  have hs := request_start ctx
  have ha : (apply policies configs ctx).1.request = ctx.request := by
    unfold apply
    cases hst : start ctx with
    | mk started state =>
      rw [hst] at hs
      cases state <;> exact hs
  exact (Interceptor.request_afterWrites _ _ _).trans ha

end ContentSecurity

/-- No interceptor of the library changes the request. -/
theorem Settings.keepsRequest {s : Settings} {key : Bytes} {is : List Interceptor}
    (h : s.interceptors key = .ok is) : ∀ i ∈ is, i.KeepsRequest := by
  intro i hi
  rcases interceptors_cases h i hi with hs | ⟨policies, rfl⟩
  · exact hs.keepsRequest
  · exact ContentSecurity.keepsRequest policies

/-! ### Tokens of forms -/

/-- All methods but three may change something, those that are not standard included. -/
theorem Method.isStateChanging_iff (m : Method) :
    m.isStateChanging = true ↔ m ∉ [get, head, options] := by
  cases m <;> simp [isStateChanging]

namespace FormForgery

variable {key : TokenKey} {r : Request} {now : Nat}

/-- The request has a cookie and a form with a token that is signed for the cookie and the host. Of
several cookies or tokens the first counts. -/
def Admitted (key : TokenKey) (r : Request) (now : Nat) : Prop :=
  ∃ cookie form token, r.cookie? cookieName = some cookie ∧ r.form = .ok form ∧
    form.string? Markup.tokenField = some token ∧
    Token.check key token cookie (Host.normalize r.host) now = .ok ()

/-- Why a request is refused, and with which status. -/
inductive Refused (key : TokenKey) (r : Request) (now : Nat) : Status → Prop where
  /-- It has no cookie. -/
  | noCookie (h : r.cookie? cookieName = none) : Refused key r now .forbidden
  /-- It has a cookie, but no form or no token in it. -/
  | noToken {cookie : String} (hc : r.cookie? cookieName = some cookie)
      (h : ∀ form, r.form = .ok form → form.string? Markup.tokenField = none) :
      Refused key r now .unauthorized
  /-- It has both, but the token does not hold. -/
  | badToken {cookie token : String} {form : Form} (hc : r.cookie? cookieName = some cookie)
      (hf : r.form = .ok form) (ht : form.string? Markup.tokenField = some token)
      (h : Token.check key token cookie (Host.normalize r.host) now ≠ .ok ()) :
      Refused key r now .forbidden

/-- A token is submitted with a form that can be read and has the field. -/
theorem submitted?_eq_some_iff {token : String} :
    submitted? r = some token ↔
      ∃ form, r.form = .ok form ∧ form.string? Markup.tokenField = some token := by
  unfold submitted?
  cases r.form <;> simp

/-- No token is submitted if no form can be read, or the form has no such field. -/
theorem submitted?_eq_none_iff :
    submitted? r = none ↔ ∀ form, r.form = .ok form → form.string? Markup.tokenField = none := by
  unfold submitted?
  cases r.form <;> simp

/-- A request is checked successfully exactly if it is admitted. -/
theorem check_eq_ok_iff : check key r now = .ok () ↔ Admitted key r now := by
  constructor
  · intro h
    unfold check at h
    split at h
    · cases h
    · rename_i cookie hc
      split at h
      · cases h
      · rename_i token hs
        split at h
        · rename_i hv
          obtain ⟨form, hf, ht⟩ := submitted?_eq_some_iff.1 hs
          exact ⟨cookie, form, token, hc, hf, ht, hv⟩
        · cases h
  · rintro ⟨cookie, form, token, hc, hf, ht, hv⟩
    have hs := submitted?_eq_some_iff.2 ⟨form, hf, ht⟩
    unfold check action
    simp only [hc, hs, hv]

/-- Every other request is refused for the first reason there is. -/
theorem refused_of_check {refusal : Refusal} (h : check key r now = .error refusal) :
    Refused key r now refusal.status := by
  unfold check at h
  split at h
  · rename_i hc
    cases h
    exact .noCookie hc
  · rename_i cookie hc
    split at h
    · rename_i hs
      cases h
      exact .noToken hc (submitted?_eq_none_iff.1 hs)
    · rename_i token hs
      split at h
      · cases h
      · rename_i e hv
        cases h
        obtain ⟨form, hf, ht⟩ := submitted?_eq_some_iff.1 hs
        refine .badToken hc hf ht ?_
        rw [← action, hv]
        intro he
        cases he

/-- A token is needed on routes with tokens, for methods that change something. -/
theorem needsToken_eq_true {configs : Configs} (hm : r.method ∉ [.get, .head, .options])
    (hc : .withoutTokens ∉ configs.items) : needsToken configs r = true := by
  simp [needsToken, Configs.has, Method.isStateChanging_iff, hm, hc]

/-- A request that may change something and is not admitted is answered with an error. -/
theorem before_of_not_admitted {configs : Configs} {ctx : Context}
    (hm : ctx.request.method ∉ [.get, .head, .options]) (hc : .withoutTokens ∉ configs.items)
    (hn : ¬ Admitted key ctx.request ctx.world.millis) :
    ∃ refusal : Refusal, Refused key ctx.request ctx.world.millis refusal.status ∧
      (interceptor key).before configs ctx = refusal.answer ctx := by
  cases hk : check key ctx.request ctx.world.millis with
  | ok u => exact absurd (check_eq_ok_iff.1 hk) hn
  | error refusal =>
    refine ⟨refusal, refused_of_check hk, ?_⟩
    simp only [interceptor, needsToken_eq_true hm hc, if_true, hk]

/-- Requests that may change something are admitted to handlers by their tokens alone, wherever the
protection stands among the interceptors, on every route that does not switch it off. If a handler runs
then the request that the interceptors in front have passed on was admitted, unless its method is one of
the three that only read. If such a request is not admitted, whether it has a route or not, then it is
answered with the status of the first reason there is; the headers and cookies of the response and the
values kept with the request stay as they were, no byte is drawn, and the service does what it would do
with any other handlers. Interceptors in front that leave the request as it is have passed on the one
that was received. -/
theorem admits_only_signed (s : Service) {front back : List Interceptor} {key : TokenKey}
    (hi : s.interceptors = front ++ interceptor key :: back) (request : Request) (world : World)
    (hc : .withoutTokens ∉ (Target.lookup s.routes request).configs.items) :
    let target := Target.lookup s.routes request
    let received := Context.ofRequest request target.captures world
    (s.Handled request world → ∃ next, Passed target.configs front received next ∧
      (next.request.method ∉ [.get, .head, .options] →
        Admitted key next.request next.world.millis)) ∧
    (∀ next, Passed target.configs front received next →
      next.request.method ∉ [.get, .head, .options] →
      ¬ Admitted key next.request next.world.millis →
      ∃ status after, Refused key next.request next.world.millis status ∧
        (interceptor key).before target.configs next = (.reject status, after) ∧
        after.headers = next.headers ∧ after.extensions = next.extensions ∧
        after.world.drawn = next.world.drawn ∧
        (s.passage request world).answer = some (.error status) ∧
        ∀ change, (s.withHandlers change).serve request world = s.serve request world) ∧
    ∀ next, Passed target.configs front received next → (∀ i ∈ front, i.KeepsRequest) →
      next.request = request := by
  intro target received
  refine ⟨?_, ?_, ?_⟩
  · intro hh
    have hp := hh.passed
    rw [hi] at hp
    obtain ⟨next, hfront, hrest⟩ := hp.of_append
    refine ⟨next, hfront, fun hm => ?_⟩
    by_contra hn
    obtain ⟨refusal, -, hb⟩ := before_of_not_admitted hm hc hn
    obtain ⟨after, hpass⟩ := hrest.before_eq
    rw [hb] at hpass
    cases hpass
  · intro next hp hm hn
    obtain ⟨refusal, hr, hb⟩ := before_of_not_admitted hm hc hn
    obtain ⟨ha, hh⟩ := Service.not_handled_of_respond hi hp hb
    exact ⟨refusal.status, next.record refusal.event, hr, hb, rfl, rfl, rfl, ha,
      Service.serve_withHandlers hh⟩
  · intro next hp hk
    exact hp.request_eq hk

namespace Forged

/-- A service with a form, and interceptors in front of and behind the protection. -/
def service : Service where
  renderer := render
  interceptors := [FixedHeaders.interceptor] ++ interceptor ⟨[1]⟩ :: [OpenerIsolation.standard]
  routes := [.ofText "/" .post (fun ctx => (.noContent, ctx)) .empty]
  distinct := Route.duplicate?_eq_none_iff.2 (by simp)

/-- A request without a cookie. -/
def request : Request := ⟨.post, "/", none, 1, ⟨[⟨"Host", "h"⟩]⟩, [], true⟩

/-- The world when it is received. -/
def world : World := ⟨0, fun _ => 0, 0, []⟩

/-- The handler of the form does not run. -/
theorem refused_without_cookie :
    ∃ status, Refused ⟨[1]⟩ request world.millis status ∧
      (service.passage request world).answer = some (.error status) := by
  have hc : .withoutTokens ∉ (Target.lookup service.routes request).configs.items := by decide
  have hd : Pin.Distinct FixedHeaders.pins := by
    rw [Pin.Distinct]
    decide
  obtain ⟨h, hs⟩ := @stage_owners (Target.lookup service.routes request).configs
    [(FixedHeaders.interceptor, FixedHeaders.pins)]
    (.ofRequest request (Target.lookup service.routes request).captures world)
    (by simp [FixedHeaders.owns]) FixedHeaders.valid hd (fun _ _ => rfl)
  have hm : request.method ∉ [.get, .head, .options] := by decide
  have hn : ¬ Admitted ⟨[1]⟩ request world.millis := by
    rintro ⟨cookie, form, token, hcookie, -⟩
    cases hcookie
  obtain ⟨status, after, hr, -, -, -, -, ha, -⟩ :=
    (admits_only_signed service rfl request world hc).2.1 _ hs.passed hm hn
  exact ⟨status, hr, ha⟩

end Forged

end FormForgery

end Palisade
