import Palisade.Proofs.Security.Submission

/-!
# Tokens that scripts send back

A request that may change something is let in if it brings one token twice, in a cookie and in a header,
and the token holds. The main statement says that nothing else lets it in, and that whoever is let in goes
away with a token that holds: the one that was brought, or a new one in its place if there was none or if
it does not hold any more. No request fails because a token or its cookie cannot be made. At the end of
time, where a token expires the moment it is issued, this is not so.
-/
namespace Palisade.ScriptForgery

open Palisade.Text

variable {key : TokenKey} {configs : Configs} {r : Request} {now : Nat} {ctx : Context}

/-! ### Requests and their tokens -/

/-- The token is signed, for nobody in particular, for the host that a request names, and it is neither
from the future nor expired. -/
def Valid (key : TokenKey) (r : Request) (now : Nat) (token : String) : Prop :=
  Token.check key token "" (Host.normalize r.host) now = .ok ()

/-- The request has a cookie with a token that holds. Of several cookies the first counts. -/
def Held (key : TokenKey) (r : Request) (now : Nat) : Prop :=
  ∃ token, r.cookie? cookieName = some token ∧ Valid key r now token

/-- The request has one token in its cookie and in its header, and the token holds. Of several cookies or
headers the first counts. -/
def Admitted (key : TokenKey) (r : Request) (now : Nat) : Prop :=
  ∃ token, r.cookie? cookieName = some token ∧ r.headers.get? headerName = some token ∧
    Valid key r now token

/-- Why a request is refused, and with which status. -/
inductive Refused (key : TokenKey) (r : Request) (now : Nat) : Status → Prop where
  | noCookie (h : r.cookie? cookieName = none) : Refused key r now .forbidden
  | noHeader {cookie : String} (hc : r.cookie? cookieName = some cookie)
      (h : r.headers.get? headerName = none) : Refused key r now .unauthorized
  /-- Cookie and header do not agree. -/
  | mismatch {cookie header : String} (hc : r.cookie? cookieName = some cookie)
      (hh : r.headers.get? headerName = some header) (h : header ≠ cookie) :
      Refused key r now .forbidden
  /-- They agree on a token that does not hold. -/
  | badToken {token : String} (hc : r.cookie? cookieName = some token)
      (hh : r.headers.get? headerName = some token) (h : ¬ Valid key r now token) :
      Refused key r now .forbidden

/-- Whoever is refused for what it is was not to be let in. -/
theorem Refused.not_admitted {status : Status} (h : Refused key r now status) :
    ¬ Admitted key r now := by
  rintro ⟨token, hc, hh, hv⟩
  cases h with
  | noCookie h =>
    rw [hc] at h
    cases h
  | noHeader _ h =>
    rw [hh] at h
    cases h
  | mismatch hc' hh' h =>
    rw [hc, Option.some.injEq] at hc'
    rw [hh, Option.some.injEq] at hh'
    exact h (hh'.symm.trans hc')
  | badToken hc' _ h =>
    rw [hc, Option.some.injEq] at hc'
    exact h (hc' ▸ hv)

/-- No refusal says that the server has failed. -/
theorem Refused.ne_internalServerError {status : Status} (h : Refused key r now status) :
    status ≠ .internalServerError := by
  cases h <;> decide

/-- A request is checked successfully exactly if it is admitted, and else it is refused for the first
reason there is. -/
theorem check_cases (key : TokenKey) (r : Request) (now : Nat) :
    (check key r now = .ok () ∧ Admitted key r now) ∨
      ∃ refusal, check key r now = .error refusal ∧ Refused key r now refusal.status := by
  unfold check
  cases hc : r.cookie? cookieName with
  | none => exact .inr ⟨_, rfl, .noCookie hc⟩
  | some cookie =>
    cases hh : r.headers.get? headerName with
    | none => exact .inr ⟨_, rfl, .noHeader hc hh⟩
    | some header =>
      by_cases he : header = cookie
      · subst he
        simp only [ne_eq, not_true_eq_false, if_false]
        cases hv : Token.check key header user (FormForgery.action r) now with
        | ok u => exact .inl ⟨rfl, header, hc, hh, hv⟩
        | error e =>
          refine .inr ⟨_, rfl, .badToken hc hh fun hvalid => ?_⟩
          rw [Valid, ← user, ← FormForgery.action, hv] at hvalid
          cases hvalid
      · simp only [ne_eq, he, not_false_eq_true, if_true]
        exact .inr ⟨_, rfl, .mismatch hc hh he⟩

/-- The check of a token is that it is held. -/
theorem holds_iff : holds key r now = true ↔ Held key r now := by
  unfold holds Held
  cases r.cookie? cookieName with
  | none => simp
  | some token =>
    simp only [Option.some.injEq, exists_eq_left']
    unfold Valid
    rw [← user, ← FormForgery.action]
    cases Token.check key token user (FormForgery.action r) now <;> simp [Except.isOk, Except.toBool]

/-! ### New tokens -/

/-- Every token can be the value of a cookie. -/
theorem exists_cookie (key : TokenKey) (action : String) (millis : Nat) :
    ∃ cookie, Cookie.new cookieName (Token.issue key user action millis) = .ok cookie := by
  have hv : ∀ x ∈ (Token.issue key user action millis).toList, Cookie.isValueChar x = true := by
    intro x hx
    rw [Token.issue, String.toList_ofList, List.mem_append, List.mem_append, List.mem_singleton] at hx
    rcases hx with (hx | rfl) | hx
    · obtain ⟨n, hn, rfl⟩ := Base64.exists_of_mem_encode hx
      have hall : ∀ n : Fin 64, Cookie.isValueChar (Base64.urlSafe.char n) = true := by decide
      exact hall ⟨n, hn⟩
    · decide
    · obtain ⟨d, hd, rfl⟩ := isDigit_of_mem_decimal hx
      have hall : ∀ d : Fin 10, Cookie.isValueChar (digitChar d) = true := by decide
      exact hall ⟨d, hd⟩
  have hn : cookieName.toList.all Cookie.isNameChar = true := by decide
  exact ⟨_, Cookie.new_eq_ok_iff.2 ⟨by decide, List.all_eq_true.1 hn, hv, rfl⟩⟩

/-- A token holds when it is issued, but at the end of time. -/
theorem valid_issue (key : TokenKey) (r : Request) (h : now < largest64) :
    Valid key r now (Token.issue key user (FormForgery.action r) now) := by
  have ht : Token.Timely now now := Token.timely_of_le (Nat.le_of_lt h) (by omega) (by omega) h
  exact (Token.check_issue_eq_ok_iff key user (FormForgery.action r) user (FormForgery.action r) now
    (Nat.le_of_lt h)).2 ⟨ht, rfl⟩

/-- A token that holds is kept, and in the place of any other a new one is queued. -/
theorem renew_cases (key : TokenKey) (ctx : Context) :
    (Held key ctx.request ctx.world.millis ∧ renew key ctx = (.pass, ctx)) ∨
      ¬ Held key ctx.request ctx.world.millis ∧ ∃ cookie : Cookie, cookie.name = cookieName ∧
        cookie.value = Token.issue key user (FormForgery.action ctx.request) ctx.world.millis ∧
        renew key ctx = (.pass, ctx.addCookie cookie) := by
  unfold renew
  by_cases hh : Held key ctx.request ctx.world.millis
  · exact .inl ⟨hh, if_pos (holds_iff.2 hh)⟩
  · obtain ⟨fresh, hf⟩ := exists_cookie key (FormForgery.action ctx.request) ctx.world.millis
    have he := (Cookie.new_eq_ok_iff.1 hf).2.2.2
    refine .inr ⟨hh, { fresh with httpOnly := false }, by rw [he], by rw [he], ?_⟩
    rw [if_neg (mt holds_iff.1 hh)]
    simp only [issue, hf]

/-! ### What a client goes away with -/

/-- The token that a client has with a response: that of the cookie that the response sets, or else the
one that it has sent. -/
def tokenWith (headers : ResponseHeaders) (r : Request) : Option String :=
  match headers.cookies.find? fun c => c.name == cookieName with
  | some cookie => some cookie.value
  | none => r.cookie? cookieName

/-- A cookie that is queued is found under its name. -/
theorem find?_addCookie (h : ResponseHeaders) (cookie : Cookie) :
    (h.addCookie cookie).cookies.find? (fun c => c.name == cookie.name) = some cookie := by
  have hnone : (h.cookies.filter fun c => c.name != cookie.name).find?
      (fun c => c.name == cookie.name) = none := by
    rw [List.find?_eq_none]
    intro c hc
    have hne := (List.mem_filter.1 hc).2
    simpa using hne
  rw [ResponseHeaders.addCookie, List.find?_append, hnone]
  simp

/-- Without a cookie for it the client keeps the token that it has sent. -/
theorem tokenWith_of_none {headers : ResponseHeaders} (hnone : ∀ c ∈ headers.cookies, c.name ≠ cookieName)
    (r : Request) : tokenWith headers r = r.cookie? cookieName := by
  have hfind : headers.cookies.find? (fun c => c.name == cookieName) = none := by simpa using hnone
  rw [tokenWith, hfind]

/-- A new cookie is the one that counts. -/
theorem tokenWith_addCookie (headers : ResponseHeaders) {cookie : Cookie} (hn : cookie.name = cookieName)
    (r : Request) : tokenWith (headers.addCookie cookie) r = some cookie.value := by
  have hfind := find?_addCookie headers cookie
  rw [hn] at hfind
  rw [tokenWith, hfind]

/-- The interceptor lets a request pass, and its client has a token that holds, or it refuses the request
for what it is. -/
theorem before_cases (key : TokenKey) (configs : Configs) (ctx : Context) :
    (((interceptor key).before configs ctx = renew key ctx) ∧
      (ctx.request.method ∉ [.get, .head, .options] → .withoutTokens ∉ configs.items →
        Admitted key ctx.request ctx.world.millis)) ∨
      ∃ refusal : Refusal, Refused key ctx.request ctx.world.millis refusal.status ∧
        (ctx.request.method ∉ [.get, .head, .options] ∧ .withoutTokens ∉ configs.items) ∧
        (interceptor key).before configs ctx = refusal.answer ctx := by
  simp only [interceptor]
  by_cases hn : ctx.request.method ∉ [.get, .head, .options] ∧ .withoutTokens ∉ configs.items
  · rw [if_pos (FormForgery.needsToken_eq_true hn.1 hn.2)]
    rcases check_cases key ctx.request ctx.world.millis with ⟨hc, ha⟩ | ⟨refusal, hc, hr⟩
    · rw [hc]
      exact .inl ⟨rfl, fun _ _ => ha⟩
    · rw [hc]
      exact .inr ⟨refusal, hr, hn, rfl⟩
  · have hneeds : FormForgery.needsToken configs ctx.request = false := by
      rw [FormForgery.needsToken, Bool.and_eq_false_iff, Bool.eq_false_iff, ne_eq,
        Method.isStateChanging_iff, Bool.not_eq_false']
      rw [Configs.has, List.contains_iff_mem]
      tauto
    rw [hneeds]
    exact .inl ⟨rfl, fun hm hc => absurd ⟨hm, hc⟩ hn⟩

/-- Scripts keep their clients in tokens that hold, but at the end of time. A request is let in exactly if
it need bring no token, or brings the same one in its cookie and its header, and this token holds. If it is
let in then nothing is done where its client has a token that holds, and else one cookie is queued, with a
token that does; so where no such cookie was queued before, one is queued exactly if the client has no token
that holds, and either way the client has one from then on. All other requests are refused for what they
are, and none because a token or a cookie cannot be made: that never happens. -/
theorem clients_hold_tokens (key : TokenKey) (configs : Configs) {ctx : Context}
    (time : ctx.world.millis < largest64) :
    let r := ctx.request
    let now := ctx.world.millis
    ((∃ after, (interceptor key).before configs ctx = (.pass, after)) ↔
      (r.method ∉ [.get, .head, .options] → .withoutTokens ∉ configs.items → Admitted key r now)) ∧
    (∀ after, (interceptor key).before configs ctx = (.pass, after) →
      ((Held key r now ∧ after = ctx) ∨
        ¬ Held key r now ∧ ∃ cookie : Cookie, cookie.name = cookieName ∧
          Valid key r now cookie.value ∧ after = ctx.addCookie cookie) ∧
      ((∀ c ∈ ctx.headers.cookies, c.name ≠ cookieName) →
        ((∃ c ∈ after.headers.cookies, c.name = cookieName) ↔ ¬ Held key r now) ∧
        ∃ token, tokenWith after.headers r = some token ∧ Valid key r now token)) ∧
    (∀ response after, (interceptor key).before configs ctx = (.respond response, after) →
      ∃ status, Refused key r now status ∧ response = .error status ∧
        status ≠ .internalServerError ∧ after.headers = ctx.headers) ∧
    ∀ millis, ∃ cookie, Cookie.new cookieName
      (Token.issue key user (FormForgery.action r) millis) = .ok cookie := by
  intro r now
  refine ⟨?_, ?_, ?_, fun millis => exists_cookie key _ millis⟩
  · rcases before_cases key configs ctx with ⟨hb, ha⟩ | ⟨refusal, hr, hn, hb⟩
    · refine ⟨fun _ => ha, fun _ => ?_⟩
      rcases renew_cases key ctx with ⟨-, he⟩ | ⟨-, cookie, -, -, he⟩ <;> exact ⟨_, hb.trans he⟩
    · refine ⟨?_, fun ha => absurd (ha hn.1 hn.2) hr.not_admitted⟩
      rintro ⟨after, hp⟩
      rw [hb] at hp
      cases hp
  · intro after hp
    have hrenew : renew key ctx = (.pass, after) := by
      rcases before_cases key configs ctx with ⟨hb, -⟩ | ⟨refusal, -, -, hb⟩
      · exact hb.symm.trans hp
      · rw [hb] at hp
        cases hp
    rcases renew_cases key ctx with ⟨hh, he⟩ | ⟨hh, cookie, hname, hvalue, he⟩
    · obtain rfl : ctx = after := congrArg Prod.snd (he.symm.trans hrenew)
      refine ⟨.inl ⟨hh, rfl⟩, fun hnone => ?_⟩
      obtain ⟨token, hc, hv⟩ := hh
      exact ⟨⟨fun ⟨c, hm, hn⟩ => absurd hn (hnone c hm), fun h => absurd ⟨token, hc, hv⟩ h⟩, token,
        (tokenWith_of_none hnone r).trans hc, hv⟩
    · obtain rfl : ctx.addCookie cookie = after := congrArg Prod.snd (he.symm.trans hrenew)
      have hv : Valid key r now cookie.value := by
        rw [hvalue]
        exact valid_issue key r time
      have hqueued : cookie ∈ (ctx.addCookie cookie).headers.cookies :=
        List.mem_append_right _ List.mem_cons_self
      exact ⟨.inr ⟨hh, cookie, hname, hv, rfl⟩, fun _ => ⟨⟨fun _ => hh, fun _ => ⟨cookie, hqueued, hname⟩⟩,
        cookie.value, tokenWith_addCookie ctx.headers hname r, hv⟩⟩
  · intro response after hp
    rcases before_cases key configs ctx with ⟨hb, -⟩ | ⟨refusal, hr, -, hb⟩
    · rcases renew_cases key ctx with ⟨-, he⟩ | ⟨-, cookie, -, -, he⟩ <;>
        (rw [hb, he] at hp; cases hp)
    · rw [hb] at hp
      cases hp
      exact ⟨refusal.status, hr, rfl, hr.ne_internalServerError, rfl⟩

namespace Matching

/-- The headers of a request with the same text in its cookie and its header. -/
def headers : Headers :=
  ⟨[⟨"Host", "h"⟩, ⟨"Cookie", "XSRF-TOKEN=forged:1"⟩, ⟨"X-XSRF-TOKEN", "forged:1"⟩]⟩

/-- A request with these headers. -/
def received (method : Method) : Context :=
  .ofRequest ⟨method, "/", none, 1, headers, [], true⟩ .empty ⟨100000000, fun _ => 0, 0, []⟩

/-- The time that the text states has passed. -/
theorem not_valid {key : TokenKey} {r : Request} : ¬ Valid key r 100000000 "forged:1" := by
  intro h
  have hsplit : Token.split? "forged:1" = some ("forged".toList, 1) := by decide
  have hfuture : ¬ Token.sumWithin 100000000 Token.clockSkew < 1 := by decide
  have hexpired : Token.sumWithin 1 Token.validity ≤ 100000000 := by decide
  simp only [Valid, Token.check, hsplit, if_neg hfuture, if_pos hexpired] at h
  cases h

/-- A pair that agrees but was not signed does not let a request in that may change something, and is
replaced for one that only reads. -/
theorem forged_pair_is_replaced :
    (¬ ∃ after, (interceptor ⟨[1]⟩).before .empty (received .post) = (.pass, after)) ∧
      ∃ after token, (interceptor ⟨[1]⟩).before .empty (received .get) = (.pass, after) ∧
        tokenWith after.headers (received .get).request = some token ∧ token ≠ "forged:1" := by
  have hcookie : ∀ method, (received method).request.cookie? cookieName = some "forged:1" := by
    intro method
    have hget : (received .get).request.cookie? cookieName = some "forged:1" := by decide
    exact hget
  have hnone : ∀ c ∈ (received .get).headers.cookies, c.name ≠ cookieName := List.forall_mem_nil _
  have htime : ∀ method, (received method).world.millis < largest64 := by
    intro method
    exact (by decide : (received .get).world.millis < largest64)
  constructor
  · intro hp
    obtain ⟨token, hc, -, hv⟩ := (clients_hold_tokens ⟨[1]⟩ .empty (htime .post)).1.1 hp
      (by decide) (by decide)
    rw [hcookie, Option.some.injEq] at hc
    exact not_valid (hc ▸ hv)
  · obtain ⟨hlet, hpass, -, -⟩ := clients_hold_tokens ⟨[1]⟩ .empty (htime .get)
    obtain ⟨after, hb⟩ := hlet.2 fun hm => absurd hm (by decide)
    obtain ⟨-, hclient⟩ := hpass after hb
    obtain ⟨-, token, ht, hv⟩ := hclient hnone
    exact ⟨after, token, hb, ht, fun he => not_valid (he ▸ hv)⟩

end Matching

end Palisade.ScriptForgery
